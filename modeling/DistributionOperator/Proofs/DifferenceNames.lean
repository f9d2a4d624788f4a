import DistributionOperator.Proofs.JsonDifferences

/-! The names of differences. Keys may hold any character, so that different paths may have one
name; they have names of their own, in their order, where the keys of nested objects are none of
them a start of another. -/

namespace DistributionOperator

theorem append_lt_append {u v : List Char} (h : u < v) (hp : ¬ u <+: v) (x y : List Char) :
    u ++ x < v ++ y := by
  induction u generalizing v with
  | nil => exact absurd List.nil_prefix hp
  | cons c r ih =>
    cases v with
    | nil => cases h
    | cons d s =>
      rcases List.cons_lt_cons_iff.mp h with hlt | ⟨rfl, hlt⟩
      · exact List.cons_lt_cons_iff.mpr (.inl hlt)
      · have hrs : ¬ r <+: s := fun hrs => hp (List.cons_prefix_cons.mpr ⟨rfl, hrs⟩)
        exact List.cons_lt_cons_iff.mpr (.inr ⟨rfl, ih hlt hrs⟩)

theorem lt_append {u v : List Char} (h : u < v) (y : List Char) : u < v ++ y := by
  induction u generalizing v with
  | nil =>
    cases v with
    | nil => cases h
    | cons d s => exact List.nil_lt_cons _ _
  | cons c r ih =>
    cases v with
    | nil => cases h
    | cons d s =>
      rcases List.cons_lt_cons_iff.mp h with hlt | ⟨rfl, hlt⟩
      · exact List.cons_lt_cons_iff.mpr (.inl hlt)
      · exact List.cons_lt_cons_iff.mpr (.inr ⟨rfl, ih hlt⟩)

/-- The keys of a path, each after a dot. -/
def dotted (path : List String) : List Char := path.flatMap fun k => '.' :: k.toList

theorem toList_intercalate_dot (root : String) (path : List String) :
    (".".intercalate (root :: path)).toList = root.toList ++ dotted path := by
  induction path generalizing root with
  | nil => simp [dotted]
  | cons k r ih =>
    rw [String.intercalate_cons_cons, String.toList_append, ih]
    simp [dotted]

theorem Difference.name_lt {root : String} {d e : Difference} (h : dotted d.path < dotted e.path) :
    d.name root < e.name root := by
  show (d.name root).toList < (e.name root).toList
  rw [name, name, toList_intercalate_dot, toList_intercalate_dot]
  exact List.append_left_lt h

theorem dotted_cons_lt {k l : String} {p q : List String} (h : k < l)
    (hp : p = [] ∨ ¬ k.toList <+: l.toList) : dotted (k :: p) < dotted (l :: q) := by
  have hkl : k.toList < l.toList := h
  refine List.cons_lt_cons_iff.mpr (.inr ⟨rfl, ?_⟩)
  rcases hp with rfl | hp
  · simpa using lt_append hkl _
  · exact append_lt_append hkl hp _ _

namespace Json

/-- Objects of known members all the way down, but for those without any object in them. -/
inductive Named (names : List String) : Json → Prop
  | leaf {j : Json} (h : ∀ o, j ≠ .object o) : Named names j
  | flat {o : List (String × Json)} (h : ∀ m ∈ o, ∀ l, m.2 ≠ .object l) : Named names (.object o)
  | fields {o : List (String × Json)} (hkeys : ∀ m ∈ o, m.1 ∈ names)
    (hvalues : ∀ m ∈ o, Named names m.2) : Named names (.object o)

variable {names : List String} {o n : List (String × Json)} {k : String}

theorem Named.find (h : (object o).Named names) (k : String) :
    ((StringMap.find k o).getD .null).Named names := by
  cases hk : StringMap.find k o with
  | none => exact .leaf fun _ => nofun
  | some v =>
    have hm := StringMap.mem_of_find hk
    cases h with
    | leaf h => exact absurd rfl (h o)
    | flat h => exact .leaf (h _ hm)
    | fields _ hvalues => exact hvalues _ hm

theorem Named.mem_names (h : (object o).Named names) {l : List (String × Json)}
    (hk : (StringMap.find k o).getD .null = object l) {j : String} (hj : j ∈ o.map (·.1)) :
    j ∈ names := by
  have hfind : StringMap.find k o = some (object l) := by
    cases hf : StringMap.find k o with
    | none => simp [hf] at hk
    | some v => simpa [hf] using hk
  cases h with
  | leaf h => exact absurd rfl (h o)
  | flat h => exact absurd rfl (h _ (StringMap.mem_of_find hfind) l)
  | fields hkeys _ =>
    obtain ⟨m, hm, rfl⟩ := List.mem_map.mp hj
    exact hkeys m hm

theorem objects_of_path {a b : Json} {d : Difference} (hd : d ∈ differences [] a b)
    (hp : d.path ≠ []) : ∃ o n, a = object o ∧ b = object n := by
  by_contra h
  rw [differences_of_ne_object h, unlessSame] at hd
  split at hd
  · cases hd
  · exact hp (by rw [List.mem_singleton.mp hd])

theorem differences_dotted {a b : Json} (ha : a.Canonical) (hb : b.Canonical)
    (hnames : ∀ j ∈ names, ∀ k ∈ names, j.toList <+: k.toList → j = k)
    (hna : a.Named names) (hnb : b.Named names) :
    (differences [] a b).Pairwise fun d e => dotted d.path < dotted e.path := by
  induction a, b using differences_induction with
  | leaf a b h =>
    rw [h, unlessSame]
    split <;> simp
  | object o n ih =>
    have hsorted := paired_sorted ha.1 hb.1
    rw [differences_object, List.pairwise_flatMap]
    constructor
    · intro t ht
      obtain ⟨hold, hnew⟩ := mem_paired ha.1 hb.1 ht
      have hbelow := ih t ht (hold ▸ ha.find t.1) (hnew ▸ hb.find t.1) (hold ▸ hna.find t.1)
        (hnew ▸ hnb.find t.1)
      rw [List.pairwise_map]
      exact hbelow.imp fun hde => List.append_left_lt hde
    · refine List.Pairwise.imp_of_mem (fun {t u} ht hu htu d hd e he => ?_) hsorted
      obtain ⟨d', hd', rfl⟩ := List.mem_map.mp hd
      obtain ⟨e', _, rfl⟩ := List.mem_map.mp he
      refine dotted_cons_lt htu ?_
      by_cases hp : d'.path = []
      · exact .inl hp
      · obtain ⟨l, l', hl, hl'⟩ := objects_of_path hd' hp
        obtain ⟨hold, hnew⟩ := mem_paired ha.1 hb.1 ht
        have hmem (v : String × Json × Json) (hv : v ∈ paired o n) : v.1 ∈ names :=
          (mem_keys_paired hv).elim (hna.mem_names (hold ▸ hl)) (hnb.mem_names (hnew ▸ hl'))
        refine .inr fun hprefix => ?_
        have heq := hnames t.1 (hmem t ht) u.1 (hmem u hu) hprefix
        exact String.lt_irrefl u.1 (heq ▸ htu)

end Json

end DistributionOperator
