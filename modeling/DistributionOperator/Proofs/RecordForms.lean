import DistributionOperator.Proofs.Records
import Mathlib.Data.List.Pairwise

/-! What strict records are read from, in full. In an object each field stands at most once, under
any of its names, and whatever else stands there is only passed over. In an array the fields stand
in their order. A field that does not stand there has the value to start with. -/

namespace DistributionOperator

namespace Draft

variable {d : Draft} {key : String} {stop : Option Fault} {u : Unit}

theorem key_eq_ok : d.key = .ok key ↔ d = .string (some key) := by
  cases d with
  | string s => cases s <;> simp [Draft.key]
  | _ => simp [Draft.key]

theorem skip_eq_ok : d.skip = .ok u ↔ d.skipFault? = none := by
  unfold skip
  cases d.skipFault? <;> simp

theorem stopped_eq_ok : stopped stop = .ok u ↔ stop = none := by
  cases stop <;> simp [stopped]

end Draft

variable {α : Type}

namespace Field

variable {f : Field α} {key : String} {d : Draft} {ms : List (Draft × Draft)}

/-- What the members of an object say of a field, by any of its names. -/
def said (f : Field α) (ms : List (Draft × Draft)) : List Draft :=
  ms.filterMap fun m =>
    match m.1 with
    | .string (some key) => if f.accepts key then some m.2 else none
    | _ => none

theorem said_cons (hk : f.accepts key = true) :
    f.said ((.string (some key), d) :: ms) = d :: f.said ms := by
  simp [said, hk]

theorem said_cons_other (hk : f.accepts key = false) :
    f.said ((.string (some key), d) :: ms) = f.said ms := by
  simp [said, hk]

theorem said_append (ms ms' : List (Draft × Draft)) :
    f.said (ms ++ ms') = f.said ms ++ f.said ms' := List.filterMap_append

theorem said_eq_nil :
    f.said ms = [] ↔ ∀ m ∈ ms, ∀ key, m.1 = .string (some key) → f.accepts key = false := by
  rw [said, List.filterMap_eq_nil_iff]
  refine forall₂_congr fun m _ => ?_
  obtain ⟨k, v⟩ := m
  split
  · rename_i key hkey
    obtain rfl : k = _ := hkey
    simp
  · rename_i hno
    exact ⟨fun _ key hkey => absurd hkey (hno key), fun _ => rfl⟩

theorem said_eq_singleton :
    f.said ms = [d] ↔ ∃ before key after, ms = before ++ (.string (some key), d) :: after ∧
      f.accepts key = true ∧ f.said (before ++ after) = [] := by
  constructor
  · intro h
    obtain ⟨before, m, after, rfl, hbefore, hm, hafter⟩ := List.filterMap_eq_cons_iff.mp h
    obtain ⟨k, v⟩ := m
    dsimp only at hm
    split at hm
    · rename_i key
      split at hm
      · rename_i hkey
        cases hm
        have hnone : f.said before = [] := List.filterMap_eq_nil_iff.mpr hbefore
        exact ⟨before, key, after, rfl, hkey, by rw [said_append, hnone]; exact hafter⟩
      · cases hm
    · cases hm
  · rintro ⟨before, key, after, rfl, hkey, hnone⟩
    obtain ⟨hbefore, hafter⟩ := List.append_eq_nil_iff.mp (said_append before after ▸ hnone)
    rw [said_append, said_cons hkey, hbefore, hafter]
    rfl

end Field

namespace Record

variable {r : Record α} {src : Source} {f g : Field α} {key : String} {start a : α}
  {ms : List (Draft × Draft)} {seen seen' : List String}

/-- A strict record whose fields do not get in each other's way and share no name. -/
structure Strict (r : Record α) : Prop where
  lawful : r.Lawful
  strict : r.strict = true
  names : (r.fields.flatMap fun f => f.name :: f.aliases).Nodup

/-- A member with a name; where no field goes by it, its value can at least be passed over. -/
def Keyed (r : Record α) (m : Draft × Draft) : Prop :=
  ∃ key, m.1 = .string (some key) ∧
    ((∀ f ∈ r.fields, f.accepts key = false) → m.2.skipFault? = none)

/-- What an object has to say for a record to be read from it. -/
structure Fits (r : Record α) (src : Source) (ms : List (Draft × Draft)) (a : α) : Prop where
  keyed : ∀ m ∈ ms, r.Keyed m
  settled : ∀ f ∈ r.fields,
    (f.said ms = [] ∧ f.required = false ∧ f.get a = f.get r.blank) ∨
      ∃ d, f.said ms = [d] ∧ f.decode src d = .ok (f.get a)

theorem Strict.distinct (h : r.Strict) (hf : f ∈ r.fields) (hg : g ∈ r.fields)
    (hfk : f.accepts key = true) (hgk : g.accepts key = true) : f = g := by
  have hname : ∀ f : Field α, f.accepts key = true → key ∈ f.name :: f.aliases := fun f hk => by
    simp only [Field.accepts, Bool.or_eq_true, decide_eq_true_eq, List.contains_iff_mem] at hk
    exact List.mem_cons.mpr (hk.imp Eq.symm id)
  obtain ⟨_, hpairs⟩ := List.nodup_flatMap.mp h.names
  have hone : r.fields.Pairwise fun f g => f.accepts key = true → g.accepts key = true → f = g :=
    hpairs.imp fun hdisjoint hf hg => absurd (hname _ hg) (hdisjoint (hname _ hf))
  have : Std.Symm fun f g : Field α => f.accepts key = true → g.accepts key = true → f = g :=
    ⟨fun _ _ heq hg hf => (heq hf hg).symm⟩
  exact List.Pairwise.forall_of_forall (fun _ _ _ _ => rfl) hone hf hg hfk hgk

theorem Strict.find_eq_some (h : r.Strict) (hf : f ∈ r.fields) (hk : f.accepts key = true) :
    r.fields.find? (·.accepts key) = some f := by
  cases hfind : r.fields.find? (·.accepts key) with
  | none =>
    have hnot := List.find?_eq_none.mp hfind f hf
    exact absurd hk hnot
  | some g =>
    have hg : g.accepts key = true := by simpa using List.find?_some hfind
    rw [h.distinct (List.mem_of_find?_eq_some hfind) hf hg hk]

theorem Strict.accepts_other (h : r.Strict) (hf : f ∈ r.fields) (hg : g ∈ r.fields)
    (hk : f.accepts key = true) (hn : g.name ≠ f.name) : g.accepts key = false := by
  by_contra htrue
  have hgk : g.accepts key = true := by simpa using htrue
  exact hn (congrArg Field.name (h.distinct hg hf hgk hk))

/-- A member that is read is passed over, or it is the first of its field. -/
theorem readMembers_cons (h : r.Strict) {k d : Draft} {read : α × List String} :
    r.readMembers src ((k, d) :: ms) seen start = .ok read ↔
      ∃ key, k = .string (some key) ∧
        (((∀ f ∈ r.fields, f.accepts key = false) ∧ d.skipFault? = none ∧
            r.readMembers src ms seen start = .ok read) ∨
          ∃ f ∈ r.fields, f.accepts key = true ∧ f.name ∉ seen ∧
            ∃ v, f.decode src d = .ok v ∧
              r.readMembers src ms (f.name :: seen) (f.set start v) = .ok read) := by
  constructor
  · intro hr
    obtain ⟨key, hkey, hnext⟩ := bind_eq_ok.mp hr
    refine ⟨key, Draft.key_eq_ok.mp hkey, ?_⟩
    cases hfind : r.fields.find? (·.accepts key) with
    | none =>
      rw [hfind] at hnext
      obtain ⟨_, hskip, hrest⟩ := bind_eq_ok.mp hnext
      refine .inl ⟨fun f hf => ?_, Draft.skip_eq_ok.mp hskip, hrest⟩
      simpa using List.find?_eq_none.mp hfind f hf
    | some f =>
      rw [hfind] at hnext
      have hk : f.accepts key = true := by simpa using List.find?_some hfind
      dsimp only at hnext
      split at hnext
      · cases hnext
      · rename_i hseen
        have hfresh : f.name ∉ seen := by simpa [h.strict] using hseen
        obtain ⟨a, ha, hrest⟩ := bind_eq_ok.mp hnext
        obtain ⟨v, hv, rfl⟩ := map_eq_ok.mp ha
        exact .inr ⟨f, List.mem_of_find?_eq_some hfind, hk, hfresh, v, hv, hrest⟩
  · rintro ⟨key, rfl, ⟨hnone, hskip, hrest⟩ | ⟨f, hf, hk, hfresh, v, hv, hrest⟩⟩
    · have hfind : r.fields.find? (·.accepts key) = none :=
        List.find?_eq_none.mpr fun f hf => by simp [hnone f hf]
      refine bind_eq_ok.mpr ⟨key, rfl, ?_⟩
      rw [hfind]
      exact bind_eq_ok.mpr ⟨(), Draft.skip_eq_ok.mpr hskip, hrest⟩
    · have hnew : ¬(r.strict && seen.contains f.name) = true := by simp [hfresh]
      refine bind_eq_ok.mpr ⟨key, rfl, ?_⟩
      rw [h.find_eq_some hf hk]
      dsimp only
      rw [if_neg hnew]
      exact bind_eq_ok.mpr ⟨_, map_eq_ok.mpr ⟨v, hv, rfl⟩, hrest⟩

/-- What becomes of a field along the members. -/
def Becomes (f : Field α) (src : Source) (start a : α) (said : List Draft)
    (seen seen' : List String) : Prop :=
  (said = [] ∧ f.get a = f.get start ∧ (f.name ∈ seen' ↔ f.name ∈ seen)) ∨
    ∃ d, said = [d] ∧ f.decode src d = .ok (f.get a) ∧ f.name ∉ seen ∧ f.name ∈ seen'

theorem readMembers_becomes (h : r.Strict)
    (hr : r.readMembers src ms seen start = .ok (a, seen')) :
    (∀ m ∈ ms, r.Keyed m) ∧ ∀ f ∈ r.fields, Becomes f src start a (f.said ms) seen seen' := by
  induction ms generalizing seen start with
  | nil =>
    cases hr
    exact ⟨by simp, fun f _ => .inl ⟨rfl, rfl, Iff.rfl⟩⟩
  | cons m rest ih =>
    obtain ⟨k, d⟩ := m
    obtain ⟨key, rfl, ⟨hnone, hskip, hrest⟩ | ⟨f, hf, hk, hfresh, v, hv, hrest⟩⟩ :=
      (readMembers_cons h).mp hr
    · obtain ⟨hkeyed, hbecomes⟩ := ih hrest
      refine ⟨List.forall_mem_cons.mpr ⟨⟨key, rfl, fun _ => hskip⟩, hkeyed⟩, fun f hf => ?_⟩
      rw [Field.said_cons_other (hnone f hf)]
      exact hbecomes f hf
    · obtain ⟨hkeyed, hbecomes⟩ := ih hrest
      refine ⟨List.forall_mem_cons.mpr ⟨⟨key, rfl, fun hnone => ?_⟩, hkeyed⟩, fun g hg => ?_⟩
      · rw [hnone f hf] at hk
        cases hk
      · by_cases hgf : g.name = f.name
        · -- the field is seen from here on, so that no later member is read into it
          obtain rfl := h.lawful.eq_of_name hg hf hgf
          rw [Field.said_cons hk]
          rcases hbecomes g hg with ⟨hsaid, hget, hiff⟩ | ⟨_, _, _, hnot, _⟩
          · rw [h.lawful.get_set g hg] at hget
            exact .inr ⟨d, by rw [hsaid], hget ▸ hv, hfresh, hiff.mpr List.mem_cons_self⟩
          · exact absurd List.mem_cons_self hnot
        · have hcons : g.name ∈ f.name :: seen ↔ g.name ∈ seen := by simp [hgf]
          rw [Field.said_cons_other (h.accepts_other hf hg hk hgf)]
          rcases hbecomes g hg with ⟨hsaid, hget, hiff⟩ | ⟨d', hsaid, hd', hnot, hin⟩
          · rw [h.lawful.get_set_other f hf g hg hgf] at hget
            exact .inl ⟨hsaid, hget, hiff.trans hcons⟩
          · exact .inr ⟨d', hsaid, hd', fun hs => hnot (hcons.mpr hs), hin⟩

theorem readMembers_of_fits (h : r.Strict) (hkeyed : ∀ m ∈ ms, r.Keyed m)
    (hsettled : ∀ f ∈ r.fields, (f.said ms = [] ∧ f.get a = f.get start) ∨
      ∃ d, f.said ms = [d] ∧ f.decode src d = .ok (f.get a))
    (hseen : ∀ f ∈ r.fields, f.said ms ≠ [] → f.name ∉ seen) :
    ∃ seen', r.readMembers src ms seen start = .ok (a, seen') := by
  induction ms generalizing seen start with
  | nil =>
    have hall : ∀ f ∈ r.fields, f.get start = f.get a := fun f hf => by
      rcases hsettled f hf with ⟨_, hget⟩ | ⟨d, hsaid, _⟩
      · exact hget.symm
      · cases hsaid
    exact ⟨seen, congrArg (fun b => Except.ok (b, seen)) (h.lawful.ext _ _ hall)⟩
  | cons m rest ih =>
    obtain ⟨⟨key, hk, hpassed⟩, hlater⟩ := List.forall_mem_cons.mp hkeyed
    obtain ⟨k, d⟩ := m
    obtain rfl : k = .string (some key) := hk
    by_cases hnone : ∀ f ∈ r.fields, f.accepts key = false
    · have hsame : ∀ f ∈ r.fields, f.said ((.string (some key), d) :: rest) = f.said rest :=
        fun f hf => Field.said_cons_other (hnone f hf)
      obtain ⟨seen', hrest⟩ := ih hlater (fun f hf => hsame f hf ▸ hsettled f hf)
        fun f hf => hsame f hf ▸ hseen f hf
      exact ⟨seen', (readMembers_cons h).mpr ⟨key, rfl, .inl ⟨hnone, hpassed hnone, hrest⟩⟩⟩
    · obtain ⟨f, hf, hk⟩ : ∃ f ∈ r.fields, f.accepts key = true := by simpa using hnone
      have hsaid : f.said ((.string (some key), d) :: rest) = d :: f.said rest :=
        Field.said_cons hk
      have hfresh : f.name ∉ seen := hseen f hf (by rw [hsaid]; simp)
      obtain ⟨hrest, hd⟩ : f.said rest = [] ∧ f.decode src d = .ok (f.get a) := by
        rcases hsettled f hf with ⟨hnil, _⟩ | ⟨d', hone, hd'⟩
        · rw [hsaid] at hnil
          cases hnil
        · rw [hsaid] at hone
          obtain ⟨rfl, hnil⟩ := List.cons_eq_cons.mp hone
          exact ⟨hnil, hd'⟩
      have hother : ∀ g ∈ r.fields, g.name ≠ f.name →
          g.said ((.string (some key), d) :: rest) = g.said rest := fun g hg hgf =>
        Field.said_cons_other (h.accepts_other hf hg hk hgf)
      obtain ⟨seen', hread⟩ : ∃ seen', r.readMembers src rest (f.name :: seen)
          (f.set start (f.get a)) = .ok (a, seen') := by
        refine ih hlater (fun g hg => ?_) fun g hg hne => ?_
        · by_cases hgf : g.name = f.name
          · obtain rfl := h.lawful.eq_of_name hg hf hgf
            exact .inl ⟨hrest, (h.lawful.get_set g hg _ _).symm⟩
          · rw [h.lawful.get_set_other f hf g hg hgf, ← hother g hg hgf]
            exact hsettled g hg
        · have hgf : g.name ≠ f.name := fun heq => by
            obtain rfl := h.lawful.eq_of_name hg hf heq
            exact hne hrest
          have hold := hseen g hg (hother g hg hgf ▸ hne)
          simp [hgf, hold]
      exact ⟨seen', (readMembers_cons h).mpr ⟨key, rfl, .inr ⟨f, hf, hk, hfresh, _, hd, hread⟩⟩⟩

theorem missing_eq_none :
    r.missing? seen = none ↔ ∀ f ∈ r.fields, f.required = true → f.name ∈ seen := by
  simp [missing?, List.find?_eq_none]

/-- A strict record is read from an object exactly if it is complete, names every member, and says
each field at most once, the required ones at least. -/
theorem decode_object_iff (h : r.Strict) {stop : Option Fault} {stray : Option Draft} :
    r.decode src (.object ms stop stray) = .ok a ↔ stop = none ∧ r.Fits src ms a := by
  constructor
  · intro hd
    obtain ⟨⟨a', seen⟩, hread, hd⟩ := bind_eq_ok.mp hd
    obtain ⟨_, hstop, hd⟩ := bind_eq_ok.mp hd
    split at hd
    · cases hd
    · rename_i hmissing
      cases hd
      obtain ⟨hkeyed, hbecomes⟩ := readMembers_becomes h hread
      refine ⟨Draft.stopped_eq_ok.mp hstop, hkeyed, fun f hf => ?_⟩
      rcases hbecomes f hf with ⟨hsaid, hget, hiff⟩ | ⟨d, hsaid, hd, _⟩
      · refine .inl ⟨hsaid, ?_, hget⟩
        by_contra hrequired
        have hseen := missing_eq_none.mp hmissing f hf (by simpa using hrequired)
        simp at hiff
        exact hiff hseen
      · exact .inr ⟨d, hsaid, hd⟩
  · rintro ⟨rfl, hkeyed, hsettled⟩
    obtain ⟨seen, hread⟩ : ∃ seen, r.readMembers src ms [] r.blank = .ok (a, seen) :=
      readMembers_of_fits h hkeyed
        (fun f hf => (hsettled f hf).imp (fun hn => ⟨hn.1, hn.2.2⟩) id) (by simp)
    have hmissing : r.missing? seen = none := by
      refine missing_eq_none.mpr fun f hf hrequired => ?_
      rcases (readMembers_becomes h hread).2 f hf with ⟨hnil, _, _⟩ | ⟨_, _, _, _, hin⟩
      · rcases hsettled f hf with ⟨_, hoptional, _⟩ | ⟨d, hone, _⟩
        · rw [hrequired] at hoptional
          cases hoptional
        · rw [hnil] at hone
          cases hone
      · exact hin
    refine bind_eq_ok.mpr ⟨(a, seen), hread, bind_eq_ok.mpr ⟨(), rfl, ?_⟩⟩
    rw [hmissing]

/-- What an array has to say for fields to be read from it in their order, the last ones left out if
they are not required. -/
def FitsItems (src : Source) (start a : α) : List (Field α) → List Draft → Prop
  | [], items => items = []
  | f :: fields, [] => f.required = false ∧ f.get a = f.get start ∧ FitsItems src start a fields []
  | f :: fields, d :: items =>
    f.decode src d = .ok (f.get a) ∧ FitsItems src start a fields items

theorem FitsItems.congr {start' : α} {fields : List (Field α)} {items : List Draft}
    (hsame : ∀ f ∈ fields, f.get start' = f.get start) :
    FitsItems src start' a fields items ↔ FitsItems src start a fields items := by
  induction fields generalizing items with
  | nil => rfl
  | cons f fields ih =>
    obtain ⟨hf, hfields⟩ := List.forall_mem_cons.mp hsame
    cases items with
    | nil => simp only [FitsItems, hf, ih hfields]
    | cons d items => simp only [FitsItems, ih hfields]

theorem readItems_iff (h : r.Strict) {fields : List (Field α)} {items : List Draft} {i : Nat}
    (hfields : ∀ f ∈ fields, f ∈ r.fields) (hn : (fields.map (·.name)).Nodup) :
    r.readItems src none fields i items start = .ok (a, []) ↔
      FitsItems src start a fields items ∧
        ∀ g ∈ r.fields, g.name ∉ fields.map (·.name) → g.get a = g.get start := by
  induction fields generalizing items i start with
  | nil =>
    have hall : (∀ g ∈ r.fields, g.name ∉ ([] : List (Field α)).map (·.name) →
        g.get a = g.get start) ↔ a = start := by
      constructor
      · exact fun hg => h.lawful.ext _ _ fun g hm => hg g hm (by simp)
      · rintro rfl g _ _
        rfl
    rw [hall]
    simp only [readItems, FitsItems, Except.ok.injEq, Prod.mk.injEq]
    exact ⟨fun he => ⟨he.2, he.1.symm⟩, fun he => ⟨he.2.symm, he.1⟩⟩
  | cons f fields ih =>
    obtain ⟨hf, hrest⟩ := List.forall_mem_cons.mp hfields
    obtain ⟨hnew, hnodup⟩ := List.nodup_cons.mp hn
    have hcons : ∀ g ∈ r.fields, g.name ∉ (f :: fields).map (·.name) ↔
        g.name ≠ f.name ∧ g.name ∉ fields.map (·.name) := fun g _ => by simp
    cases items with
    | nil =>
      constructor
      · intro hread
        obtain ⟨_, _, hnext⟩ := bind_eq_ok.mp hread
        split at hnext
        · cases hnext
        · rename_i hrequired
          obtain ⟨hfits, hsame⟩ := (ih hrest hnodup).mp hnext
          exact ⟨⟨by simpa using hrequired, hsame f hf hnew, hfits⟩,
            fun g hg hno => hsame g hg ((hcons g hg).mp hno).2⟩
      · rintro ⟨⟨hrequired, hget, hfits⟩, hsame⟩
        refine bind_eq_ok.mpr ⟨(), rfl, ?_⟩
        rw [if_neg (by simp [hrequired])]
        refine (ih hrest hnodup).mpr ⟨hfits, fun g hg hno => ?_⟩
        by_cases hgf : g.name = f.name
        · rw [h.lawful.eq_of_name hg hf hgf]
          exact hget
        · exact hsame g hg ((hcons g hg).mpr ⟨hgf, hno⟩)
    | cons d items =>
      -- what is set first is left alone by the fields that follow
      have hkept : ∀ v, ∀ g ∈ fields, g.get (f.set start v) = g.get start := fun v g hg =>
        h.lawful.get_set_other f hf g (hrest g hg)
          (fun he => hnew (List.mem_map.mpr ⟨g, hg, he⟩)) start v
      constructor
      · intro hread
        obtain ⟨a₁, ha₁, hnext⟩ := bind_eq_ok.mp hread
        obtain ⟨v, hv, rfl⟩ := map_eq_ok.mp ha₁
        obtain ⟨hfits, hsame⟩ := (ih hrest hnodup).mp hnext
        have hget : f.get a = v := (hsame f hf hnew).trans (h.lawful.get_set f hf start v)
        refine ⟨⟨hget ▸ hv, (FitsItems.congr (hkept v)).mp hfits⟩, fun g hg hno => ?_⟩
        obtain ⟨hgf, hout⟩ := (hcons g hg).mp hno
        exact (hsame g hg hout).trans (h.lawful.get_set_other f hf g hg hgf start v)
      · rintro ⟨⟨hd, hfits⟩, hsame⟩
        refine bind_eq_ok.mpr ⟨f.set start (f.get a), map_eq_ok.mpr ⟨f.get a, hd, rfl⟩, ?_⟩
        refine (ih hrest hnodup).mpr ⟨(FitsItems.congr (hkept _)).mpr hfits, fun g hg hno => ?_⟩
        by_cases hgf : g.name = f.name
        · obtain rfl := h.lawful.eq_of_name hg hf hgf
          exact (h.lawful.get_set g hg start _).symm
        · rw [h.lawful.get_set_other f hf g hg hgf]
          exact hsame g hg ((hcons g hg).mpr ⟨hgf, hno⟩)

theorem decode_array_iff (h : r.Strict) {items : List Draft} {stop : Option Fault} :
    r.decode .text (.array items stop) = .ok a ↔
      stop = none ∧ FitsItems .text r.blank a r.fields items := by
  have hfields : (r.readItems .text none r.fields 0 items r.blank = .ok (a, [])) ↔
      FitsItems .text r.blank a r.fields items := by
    refine (readItems_iff h (fun f hf => hf) h.lawful.nodup).trans (and_iff_left ?_)
    exact fun g hg hno => absurd (List.mem_map.mpr ⟨g, hg, rfl⟩) hno
  rw [← hfields]
  simp only [decode, h.strict, if_true]
  constructor
  · intro hd
    obtain ⟨⟨a', left⟩, hread, hd⟩ := bind_eq_ok.mp hd
    dsimp only at hd
    split at hd
    · rename_i hempty
      obtain ⟨_, hstop, hd⟩ := bind_eq_ok.mp hd
      obtain rfl := Draft.stopped_eq_ok.mp hstop
      cases hd
      exact ⟨rfl, by rw [hread, List.isEmpty_iff.mp hempty]⟩
    · cases hd
  · rintro ⟨rfl, hread⟩
    exact bind_eq_ok.mpr ⟨(a, []), hread, rfl⟩

/-- Nothing but objects and arrays is read as a strict record. -/
theorem decode_text_iff (h : r.Strict) {d : Draft} :
    r.decode .text d = .ok a ↔
      (∃ ms stray, d = .object ms none stray ∧ r.Fits .text ms a) ∨
        ∃ items, d = .array items none ∧ FitsItems .text r.blank a r.fields items := by
  cases d with
  | object ms stop stray => simp [decode_object_iff h]
  | array items stop => simp [decode_array_iff h]
  | _ => simp [decode]

end Record

end DistributionOperator
