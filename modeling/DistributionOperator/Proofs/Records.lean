import DistributionOperator.Json.Record
import DistributionOperator.Proofs.Codecs
import Mathlib.Data.List.Nodup

/-! Records read from the members of an object. Where the fields do not get in each other's way, each
of them is settled by the member of its name alone, so that a record of faithful fields is
faithful. -/

namespace DistributionOperator

variable {α β : Type}

/-- What a field has in a record that was read: what its member says, or the value to start with. -/
def Field.Takes (f : Field α) (start : α) (member : Option Json) (a : α) : Prop :=
  match member with
  | some j => f.decode .value j.toDraft = .ok (f.get a)
  | none => f.get a = f.get start

namespace Record

variable {r : Record α}

/-- Fields with names of their own that are set apart from each other and make up the record. -/
structure Lawful (r : Record α) : Prop where
  nodup : (r.fields.map (·.name)).Nodup
  aliases : ∀ f ∈ r.fields, ∀ k ∈ f.aliases, k ∉ r.fields.map (·.name)
  get_set : ∀ f ∈ r.fields, ∀ a v, f.get (f.set a v) = v
  get_set_other : ∀ f ∈ r.fields, ∀ g ∈ r.fields, g.name ≠ f.name →
    ∀ a v, g.get (f.set a v) = g.get a
  ext : ∀ a b, (∀ f ∈ r.fields, f.get a = f.get b) → a = b

/-- Members without repeated keys that go by the first names of fields. -/
structure Plain (r : Record α) (members : List (String × Json)) : Prop where
  nodup : (members.map (·.1)).Nodup
  aliases : ∀ f ∈ r.fields, ∀ k ∈ f.aliases, k ∉ members.map (·.1)

theorem Plain.tail {m : String × Json} {members : List (String × Json)}
    (h : r.Plain (m :: members)) : r.Plain members where
  nodup := (List.nodup_cons.mp h.nodup).2
  aliases f hf k hk hm := h.aliases f hf k hk (List.mem_cons_of_mem _ hm)

theorem Plain.name_of_accepts {k : String} {j : Json} {members : List (String × Json)}
    (h : r.Plain ((k, j) :: members)) {f : Field α} (hf : f ∈ r.fields)
    (hk : f.accepts k = true) : f.name = k := by
  simp only [Field.accepts, Bool.or_eq_true, decide_eq_true_eq] at hk
  rcases hk with hk | hk
  · exact hk
  · have hmem : k ∈ f.aliases := by simpa using hk
    exact absurd List.mem_cons_self (h.aliases f hf k hmem)

theorem Lawful.eq_of_name (h : r.Lawful) {f g : Field α} (hf : f ∈ r.fields) (hg : g ∈ r.fields)
    (hn : f.name = g.name) : f = g :=
  List.inj_on_of_nodup_map h.nodup hf hg hn

theorem readMembers_takes (h : r.Lawful) {members : List (String × Json)}
    (hm : r.Plain members) {seen seen' : List String} {start a : α}
    (hd : r.readMembers .value (Json.draftMembers members) seen start = .ok (a, seen')) :
    ∀ f ∈ r.fields, f.Takes start (StringMap.find f.name members) a := by
  induction members generalizing seen start with
  | nil =>
    cases hd
    exact fun f _ => rfl
  | cons m rest ih =>
    obtain ⟨k, j⟩ := m
    have hfind : ∀ g : Field α, g.name ≠ k →
        StringMap.find g.name ((k, j) :: rest) = StringMap.find g.name rest := fun g hg => by
      simp [StringMap.find, hg.symm]
    obtain ⟨key, hkey, hd⟩ := bind_eq_ok.mp hd
    cases hkey
    cases hf : r.fields.find? (·.accepts k) with
    | none =>
      rw [hf] at hd
      simp only [Json.skip_toDraft] at hd
      intro g hg
      have hne : g.name ≠ k := by
        intro hgk
        have hno := List.find?_eq_none.mp hf g hg
        simp [Field.accepts, hgk] at hno
      rw [hfind g hne]
      exact ih hm.tail hd g hg
    | some f =>
      have hmem : f ∈ r.fields := List.mem_of_find?_eq_some hf
      have hname : f.name = k := hm.name_of_accepts hmem (by simpa using List.find?_some hf)
      rw [hf] at hd
      dsimp only at hd
      split at hd
      · cases hd
      · obtain ⟨a₁, ha₁, hd⟩ := bind_eq_ok.mp hd
        obtain ⟨v, hv, hset⟩ : ∃ v, f.decode .value j.toDraft = .ok v ∧ f.set start v = a₁ := by
          unfold Field.read at ha₁
          cases hv : f.decode .value j.toDraft with
          | error e =>
            rw [hv] at ha₁
            cases ha₁
          | ok v =>
            rw [hv] at ha₁
            exact ⟨v, rfl, Except.ok.inj ha₁⟩
        intro g hg
        have hrest := ih hm.tail hd g hg
        by_cases hgf : g.name = f.name
        · have heq : g = f := h.eq_of_name hg hmem hgf
          subst heq
          have hnone : StringMap.find g.name rest = none :=
            StringMap.find_eq_none_iff.mpr (hname ▸ (List.nodup_cons.mp hm.nodup).1)
          have hsome : StringMap.find g.name ((k, j) :: rest) = some j := by
            simp [StringMap.find, hname]
          have hget : g.get a = g.get a₁ := by
            rw [hnone] at hrest
            exact hrest
          rw [hsome]
          show g.decode .value j.toDraft = .ok (g.get a)
          rw [hget, ← hset, h.get_set g hmem, hv]
        · have hstart : g.get a₁ = g.get start := by
            rw [← hset, h.get_set_other f hmem g hg hgf]
          rw [hfind g (hname ▸ hgf)]
          unfold Field.Takes at hrest ⊢
          rw [hstart] at hrest
          exact hrest

theorem decode_takes (h : r.Lawful) {members : List (String × Json)} (hm : r.Plain members) {a : α}
    (hd : r.decode .value (Json.object members).toDraft = .ok a) :
    ∀ f ∈ r.fields, f.Takes r.blank (StringMap.find f.name members) a := by
  obtain ⟨⟨a', seen⟩, hr, hd⟩ := bind_eq_ok.mp hd
  have htakes := readMembers_takes h hm hr
  obtain ⟨_, _, hd⟩ := bind_eq_ok.mp hd
  split at hd
  · cases hd
  · rw [← Except.ok.inj hd]
    exact htakes

def members (r : Record α) (a : α) : List (String × Json) :=
  (StringMap.ofList ((r.fields.map fun f => (f.name, f.encode (f.get a))).filterMap
    fun m => m.2.map (m.1, ·))).entries

theorem encode_eq (r : Record α) (a : α) : r.encode a = .object (r.members a) := rfl

theorem find_filterMap_present {k : String} {l : List (String × Option Json)}
    (h : (l.map (·.1)).Nodup) :
    StringMap.find k (l.filterMap fun m => m.2.map (m.1, ·)) = (StringMap.find k l).bind id := by
  induction l with
  | nil => rfl
  | cons m rest ih =>
    obtain ⟨k', j?⟩ := m
    have hn := List.nodup_cons.mp h
    by_cases hk : k' = k
    · subst hk
      cases j? with
      | none =>
        have hrest : StringMap.find k' rest = none := StringMap.find_eq_none_iff.mpr hn.1
        simp [StringMap.find, ih hn.2, hrest]
      | some j => simp [StringMap.find]
    · cases j? with
      | none => simpa [StringMap.find, hk] using ih hn.2
      | some j => simpa [StringMap.find, hk] using ih hn.2

theorem present_sublist (l : List (String × Option Json)) :
    ((l.filterMap fun m => m.2.map (m.1, ·)).map (·.1)).Sublist (l.map (·.1)) := by
  induction l with
  | nil => exact .slnil
  | cons m rest ih =>
    obtain ⟨k, j?⟩ := m
    cases j? with
    | none => exact ih.cons k
    | some j => exact ih.cons_cons k

theorem find_members_eq (h : r.Lawful) (k : String) (a : α) :
    StringMap.find k (r.members a) =
      (StringMap.find k (r.fields.map fun f => (f.name, f.encode (f.get a)))).bind id := by
  have hn : ((r.fields.map fun f => (f.name, f.encode (f.get a))).map (·.1)).Nodup := by
    simpa [Function.comp_def] using h.nodup
  rw [← find_filterMap_present hn]
  exact StringMap.get?_ofList (hn.sublist (present_sublist _)) k

theorem find_fields {γ : Type} {fields : List (Field α)} (h : (fields.map (·.name)).Nodup)
    {f : Field α} (hf : f ∈ fields) (value : Field α → γ) :
    StringMap.find f.name (fields.map fun f => (f.name, value f)) = some (value f) := by
  induction fields with
  | nil => simp at hf
  | cons g rest ih =>
    have hn := List.nodup_cons.mp h
    rcases List.mem_cons.mp hf with rfl | hf
    · simp [StringMap.find]
    · have hne : g.name ≠ f.name := fun heq => hn.1 (List.mem_map.mpr ⟨f, hf, heq.symm⟩)
      simpa [StringMap.find, hne] using ih hn.2 hf

theorem find_members (h : r.Lawful) {f : Field α} (hf : f ∈ r.fields) (a : α) :
    StringMap.find f.name (r.members a) = f.encode (f.get a) := by
  rw [find_members_eq h, find_fields h.nodup hf fun f => f.encode (f.get a)]
  rfl

theorem find_members_none (h : r.Lawful) {k : String} (hk : k ∉ r.fields.map (·.name)) (a : α) :
    StringMap.find k (r.members a) = none := by
  have hnone : StringMap.find k (r.fields.map fun f => (f.name, f.encode (f.get a))) = none :=
    StringMap.find_eq_none_iff.mpr (by simpa [Function.comp_def] using hk)
  rw [find_members_eq h, hnone]
  rfl

theorem members_plain (h : r.Lawful) (a : α) : r.Plain (r.members a) where
  nodup := StringMap.nodup_of_sorted (StringMap.sorted _)
  aliases f hf k hk :=
    StringMap.find_eq_none_iff.mp (find_members_none h (h.aliases f hf k hk) a)

end Record

/-- A field that is read back, and that is left out only with the value to start with. -/
def Field.Faithful (f : Field α) (start : α) : Prop :=
  ∀ v, match f.encode v with
    | some j => ∀ w, f.decode .value j.toDraft = .ok w → w = v
    | none => v = f.get start

namespace Field

variable {name : String} {c : Codec β} {start : α}

theorem needed_faithful (h : c.Faithful) (get : α → β) (set : α → β → α) :
    (needed name c get set).Faithful start := h

theorem defaulted_faithful (h : c.Faithful) (get : α → β) (set : α → β → α) :
    (defaulted name c get set).Faithful start := h

theorem nullable_faithful (h : c.Faithful) (hn : c.NeverNull) (get : α → Option β)
    (set : α → Option β → α) : (nullable name c get set).Faithful start :=
  Codec.option_faithful h hn

theorem optional_faithful (h : c.Faithful) (hn : c.NeverNull) {get : α → Option β}
    (set : α → Option β → α) (hs : get start = none) :
    (optional name c get set).Faithful start := by
  intro v
  cases v with
  | none => exact hs.symm
  | some b => exact Codec.option_faithful h hn (some b)

theorem skippedIf_encode {skipped : β → Bool} {get : α → β} {set : α → β → α} {b : β} {j : Json}
    (h : (skippedIf name c skipped get set).encode b = some j) :
    skipped b = false ∧ c.encode b = j := by
  simpa [skippedIf] using h

theorem skippedIf_faithful (h : c.Faithful) {skipped : β → Bool} {get : α → β}
    (set : α → β → α) (hs : ∀ b, skipped b = true → b = get start) :
    (skippedIf name c skipped get set).Faithful start := by
  intro b
  cases hb : skipped b with
  | true =>
    simpa [skippedIf, hb] using hs b hb
  | false =>
    simpa [skippedIf, hb] using h b

theorem withAlias_faithful {f : Field α} (h : f.Faithful start) (other : String) :
    (f.withAlias other).Faithful start := h

end Field

namespace Record

variable {r : Record α}

theorem codec_neverNull (r : Record α) : r.codec.NeverNull := by
  intro a h
  cases h

theorem codec_faithful (h : r.Lawful) (hf : ∀ f ∈ r.fields, f.Faithful r.blank) :
    r.codec.Faithful := by
  intro a b hd
  refine h.ext b a fun f hmem => ?_
  have htakes := decode_takes h (members_plain h a) hd f hmem
  have hfaithful := hf f hmem (f.get a)
  rw [find_members h hmem] at htakes
  cases hj : f.encode (f.get a) with
  | none =>
    rw [hj] at htakes hfaithful
    exact htakes.trans hfaithful.symm
  | some j =>
    rw [hj] at htakes hfaithful
    exact hfaithful _ htakes

end Record

end DistributionOperator
