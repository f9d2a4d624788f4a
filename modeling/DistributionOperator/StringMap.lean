/-! Finite maps from texts, kept in the order of their keys, so that two maps with the same
entries are the same map and are printed alike. -/

namespace DistributionOperator

structure StringMap (α : Type) where
  entries : List (String × α)
  sorted : entries.Pairwise (fun a b => a.1 < b.1)
deriving DecidableEq

namespace StringMap

variable {α : Type}

theorem ext {m n : StringMap α} (h : m.entries = n.entries) : m = n := by
  cases m; cases n; cases h; rfl

def empty : StringMap α := ⟨[], List.Pairwise.nil⟩

instance : EmptyCollection (StringMap α) := ⟨empty⟩
instance : Inhabited (StringMap α) := ⟨empty⟩

def isEmpty (m : StringMap α) : Bool := m.entries.isEmpty

def find (k : String) : List (String × α) → Option α
  | [] => none
  | e :: r => if e.1 = k then some e.2 else find k r

def get? (m : StringMap α) (k : String) : Option α := find k m.entries

/-- Places an entry before the first greater key, in the stead of an equal one. -/
def place (k : String) (v : α) : List (String × α) → List (String × α)
  | [] => [(k, v)]
  | e :: r =>
    if k < e.1 then (k, v) :: e :: r else if e.1 = k then (k, v) :: r else e :: place k v r

theorem lt_of_not_lt_of_ne {a b : String} (h : ¬ a < b) (hne : b ≠ a) : b < a := by
  rcases String.le_total a b with hab | hab
  · exact absurd (String.le_antisymm hab (String.not_lt.1 h)) (Ne.symm hne)
  · exact Decidable.byContradiction fun hn => hne (String.le_antisymm hab (String.not_lt.1 hn))

theorem mem_place {k : String} {v : α} {l : List (String × α)} {e : String × α}
    (h : e ∈ place k v l) : e = (k, v) ∨ e ∈ l := by
  induction l with
  | nil => simpa [place] using h
  | cons x r ih =>
    unfold place at h
    split at h
    · simpa using h
    · split at h
      · rcases List.mem_cons.1 h with h | h
        · exact .inl h
        · exact .inr (List.mem_cons_of_mem _ h)
      · rcases List.mem_cons.1 h with h | h
        · exact .inr (h ▸ List.mem_cons_self)
        · exact (ih h).imp id (List.mem_cons_of_mem _)

theorem place_sorted {k : String} {v : α} {l : List (String × α)}
    (h : l.Pairwise (fun a b => a.1 < b.1)) : (place k v l).Pairwise (fun a b => a.1 < b.1) := by
  induction l with
  | nil => simp [place]
  | cons x r ih =>
    have hx := List.pairwise_cons.1 h
    unfold place
    split
    · rename_i hk
      refine List.pairwise_cons.2 ⟨fun e he => ?_, h⟩
      rcases List.mem_cons.1 he with rfl | he
      · exact hk
      · exact String.lt_trans hk (hx.1 e he)
    · rename_i hk
      split
      · rename_i hxk
        exact List.pairwise_cons.2 ⟨fun e he => hxk ▸ hx.1 e he, hx.2⟩
      · rename_i hxk
        refine List.pairwise_cons.2 ⟨fun e he => ?_, ih hx.2⟩
        rcases mem_place he with rfl | he
        · exact lt_of_not_lt_of_ne hk hxk
        · exact hx.1 e he

def insert (m : StringMap α) (k : String) (v : α) : StringMap α :=
  ⟨place k v m.entries, place_sorted m.sorted⟩

def erase (m : StringMap α) (k : String) : StringMap α :=
  ⟨m.entries.filter (fun e => e.1 ≠ k), m.sorted.filter _⟩

/-- The last of several entries with one key counts. -/
def ofList (l : List (String × α)) : StringMap α :=
  l.foldl (fun m e => m.insert e.1 e.2) empty

def toList (m : StringMap α) : List (String × α) := m.entries

def map {β : Type} (f : α → β) (m : StringMap α) : StringMap β :=
  ⟨m.entries.map fun e => (e.1, f e.2), by
    simpa [List.pairwise_map] using m.sorted⟩

theorem find_place (k j : String) (v : α) (l : List (String × α)) :
    find j (place k v l) = if k = j then some v else find j l := by
  induction l with
  | nil => simp [place, find]
  | cons x r ih =>
    unfold place
    split
    · simp [find]
    · split
      · rename_i hxk
        simp only [find, hxk]
        by_cases hkj : k = j <;> simp [hkj]
      · rename_i hxk
        simp only [find, ih]
        by_cases hxj : x.1 = j
        · have : k ≠ j := fun h => hxk (hxj.trans h.symm)
          simp [hxj, this]
        · simp [hxj]

@[simp] theorem get?_empty (k : String) : (empty : StringMap α).get? k = none := rfl

@[simp] theorem get?_insert (m : StringMap α) (k j : String) (v : α) :
    (m.insert k v).get? j = if k = j then some v else m.get? j :=
  find_place k j v m.entries

@[simp] theorem get?_erase (m : StringMap α) (k j : String) :
    (m.erase k).get? j = if k = j then none else m.get? j := by
  simp only [get?, erase]
  induction m.entries with
  | nil => simp [find]
  | cons x r ih =>
    by_cases hx : x.1 = k
    · simp only [List.filter_cons, hx, ne_eq, not_true, decide_false]
      rw [if_neg (by simp), ih]
      by_cases hkj : k = j <;> simp [find, hx, hkj]
    · rw [List.filter_cons, if_pos (by simpa using hx)]
      simp only [find, ih]
      by_cases hkj : k = j
      · simp [hkj ▸ hx, hkj]
      · simp [hkj]

end StringMap

end DistributionOperator
