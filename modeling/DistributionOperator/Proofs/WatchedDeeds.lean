import DistributionOperator.Proofs.ForgottenObjects
import DistributionOperator.Watch.Basic

/-! What is done for distributions while they are watched. After a listing just the listed ones are
known, and all that is done as time passes is for a known one, or the end of what is remembered of
one that is not known. -/

namespace DistributionOperator

open Program

variable {others : Scene → Scene → Prop} {s s' : Scene} {o : Operator} {w : Watch} {r : Reference}
  {a : Surroundings} {time : Nat}

namespace Watch

theorem take_present_known (d : Distribution) :
    (w.take time (.present d)).known = (w.learn (.ofMeta d.metadata) (some d)).known := by
  simp only [take, sawGeneration]
  split <;> split <;> rfl

theorem relist_children_known (kind : ChildKind) :
    (w.relist a time (.children kind)).known = w.known := by
  have htaken (ms : List ObjectMeta) (v : Watch) :
      ((ms.map (Event.child kind)).foldl (take time) v).known = v.known := by
    induction ms generalizing v with
    | nil => rfl
    | cons m ms ih =>
      have hfirst : (v.take time (.child kind m)).known = v.known := by
        simp only [take, triggers_eq]
      exact (ih _).trans hfirst
  exact htaken _ w

/-- The distributions that are known once they were listed are those in the list. -/
theorem relist_distributions_known :
    ((w.relist a time .distributions).known r).isSome ↔
      ∃ d ∈ (a.listed time).distributions, Reference.ofMeta d.metadata = r := by
  have htaken (ds : List Distribution) (v : Watch) :
      (((ds.map Event.present).foldl (take time) v).known r).isSome ↔
        (v.known r).isSome ∨ ∃ d ∈ ds, Reference.ofMeta d.metadata = r := by
    induction ds generalizing v with
    | nil => simp
    | cons d ds ih =>
      have hfirst : ((v.take time (.present d)).known r).isSome ↔
          (v.known r).isSome ∨ Reference.ofMeta d.metadata = r := by
        rw [take_present_known, learn]
        by_cases hr : r = .ofMeta d.metadata
        · simp [hr]
        · simp [hr, Ne.symm hr]
      simp only [List.map_cons, List.foldl_cons, List.exists_mem_cons_iff]
      rw [ih, hfirst, or_assoc]
  exact (htaken _ _).trans (by simp)

theorem known_of_find {d : Distribution} (h : w.find r = some d) : ∃ r', w.known r' = some d := by
  rcases Option.or_eq_some_iff.mp h with h | ⟨_, h⟩
  · exact ⟨_, h⟩
  · exact ⟨_, h⟩

end Watch

/-- The deeds that have their place while some distributions are known: passes and delays are for
one of them, and none of them is pruned. -/
def Deed.Suits (w : Watch) : Deed → Prop
  | passed p => ∃ r d, w.known r = some d ∧ p.key = (Reference.ofMeta d.metadata).home
  | delayed r' _ _ _ => ∃ r d, w.known r = some d ∧ r' = .ofMeta d.metadata
  | pruned r _ _ => w.known r = none

theorem Deeds.trans {u : Scene} {ds ds' : List Deed} (h : Deeds others s ds u)
    (h' : Deeds others u ds' s') : Deeds others s (ds ++ ds') s' := by
  induction h with
  | nil => exact h'
  | deed hd _ ih => exact .deed hd (ih h')
  | between ho _ ih => exact .between ho (ih h')

theorem visit_deeds (others : Scene → Scene → Prop) {t : List Exchange} {delay : Option Nat}
    (h : (Watch.visit o r (w.find r)).Performs s t delay s') :
    ∃ ds, Deeds others s ds s' ∧ ds ≠ [] ∧ ∀ e ∈ ds, e.Suits w := by
  cases hfound : w.find r with
  | none =>
    rw [hfound] at h
    have hunknown : w.known r = none := (Option.or_eq_none_iff.mp hfound).1
    have hdelay : delay = none := by
      obtain ⟨_, _, _, _, _, _, hrest⟩ := performs_bind.mp h
      exact (performs_done.mp hrest).2.1
    rw [hdelay] at h
    exact ⟨[.pruned r s s'], .deed (d := .pruned r s s') ⟨o, t, h⟩ (.nil _), by simp,
      List.forall_mem_singleton.mpr hunknown⟩
  | some d =>
    rw [hfound] at h
    obtain ⟨r', hknown⟩ := Watch.known_of_find hfound
    obtain ⟨result, t₁, t₂, u, rfl, hpass, hrest⟩ := performs_bind.mp h
    let its := Reference.ofMeta d.metadata
    let p : PassRecord := ⟨o, its.home, s, t₁, result, u⟩
    have hp : (Deed.passed p).Suits w := ⟨r', d, hknown, rfl⟩
    cases result with
    | ok outcome =>
      obtain ⟨_, _, rfl⟩ := performs_done.mp hrest
      exact ⟨[.passed p], .deed (d := .passed p) hpass (.nil _), by simp,
        List.forall_mem_singleton.mpr hp⟩
    | error e =>
      obtain ⟨seconds, t₃, t₄, v, rfl, hdelay, hrest⟩ := performs_bind.mp hrest
      obtain ⟨_, _, rfl⟩ := performs_done.mp hrest
      obtain ⟨answer, rfl, rfl, _⟩ := retryDelay_performs hdelay
      have hdelayed : (Deed.delayed its answer u s').Suits w := ⟨r', d, hknown, rfl⟩
      exact ⟨[.passed p, .delayed its answer u s'],
        .deed (d := .passed p) hpass (.deed (d := .delayed its answer u s') hdelay (.nil _)),
        by simp, List.forall_mem_cons.mpr ⟨hp, List.forall_mem_singleton.mpr hdelayed⟩⟩

/-- What happens as time passes is made of deeds. Unless a lull ends, the same distributions are
known before and after, and the deeds suit them. -/
theorem advance_deeds (o : Operator) (a : Surroundings) (limit : Nat) (w : Watch) (r : Rehearsal) :
    let later := (w.advance o Rehearsal.answer a limit r).2
    ∃ ds, Deeds others r.scene ds later.2.scene ∧
      (w.lull = none → later.1.known = w.known ∧ ∀ e ∈ ds, e.Suits w) := by
  fun_induction Watch.advance o Rehearsal.answer a limit w r with
  | case1 w r => exact ⟨[], .nil _, fun _ => ⟨rfl, by simp⟩⟩
  | case2 w r l hnext ih =>
    obtain ⟨ds, hdeeds, _⟩ := ih
    have hlull : w.lull = some l := Watch.next?_resume hnext
    exact ⟨ds, hdeeds, fun hnone => by simp [hnone] at hlull⟩
  | case3 w r slot hnext visited requeued later ih =>
    obtain ⟨ds, hdeeds, hsuit⟩ := visit_deeds others (r.performs _)
    obtain ⟨ds', hdeeds', hsame⟩ := ih
    refine ⟨ds ++ ds', hdeeds.trans hdeeds', fun hnone => ?_⟩
    obtain ⟨hknown, hsuit'⟩ := hsame hnone
    exact ⟨hknown, List.forall_mem_append.mpr ⟨hsuit.2, hsuit'⟩⟩

end DistributionOperator
