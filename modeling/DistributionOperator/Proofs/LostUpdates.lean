import DistributionOperator.Proofs.AtomicStore
import DistributionOperator.Proofs.FreshVersions

/-! Histories of a store that is used by many clients. Versions that were handed out stay behind the
counter, so that a client which replaces what it has read comes through only if nobody wrote there
since. -/

namespace DistributionOperator

/-- What happens to a store: the calls of its clients, and what is set up for them. -/
inductive StoreEvent where
  | called (c : StoreCall)
  | addDistribution (d : Distribution)
  | addChild (kind : ChildKind) (space : String) (c : Child)
  | addConfigMap (space : String) (m : ConfigMap)
  | setChildStatus (kind : ChildKind) (k : Key) (status : Json)
  | clearLog
  | failStatuses (message : Option String)
  | failDeploymentReads (message : Option String)

namespace StoreEvent

/-- The slot that an event is about. -/
def slot? : StoreEvent → Option StoreSlot
  | called c => c.slot?
  | addDistribution d => some (.distribution (Store.keyIn d.space d.metadata))
  | addChild kind space c => some (.child kind (Store.keyIn space c.metadata))
  | addConfigMap space m => some (.configMap (Store.keyIn space m.metadata))
  | setChildStatus kind k _ => some (.child kind k)
  | clearLog | failStatuses _ | failDeploymentReads _ => none

/-- Whether something is set up in a slot beside the calls. -/
def SetsUp (x : StoreSlot) : StoreEvent → Prop
  | called _ => False
  | e => e.slot? = some x

/-- Whether an object is set up in a slot with whatever version it has. -/
def Installs (x : StoreSlot) : StoreEvent → Prop
  | addChild kind space c => (addChild kind space c).slot? = some x
  | addConfigMap space m => (addConfigMap space m).slot? = some x
  | _ => False

/-- Whether an event takes a version from the counter. -/
def Stamps (s : Store) : StoreEvent → Prop
  | called c => c.Wrote (s.answer c).1 ∧ ¬c.Removes
  | addDistribution _ => True
  | _ => False

/-- Whether an event is a call that writes a slot or deletes what is there. -/
def Touches (s : Store) (x : StoreSlot) : StoreEvent → Prop
  | called c => c.slot? = some x ∧ c.Wrote (s.answer c).1
  | _ => False

end StoreEvent

namespace Store

def on (s : Store) : StoreEvent → Store
  | .called c => (s.answer c).2
  | .addDistribution d => s.addDistribution d
  | .addChild kind space c => s.addChild kind space c
  | .addConfigMap space m => s.addConfigMap space m
  | .setChildStatus kind k status => s.setChildStatus kind k status
  | .clearLog => s.clearLog
  | .failStatuses message => { s with statusFault := message }
  | .failDeploymentReads message => { s with deploymentReadFault := message }

def replay (s : Store) (es : List StoreEvent) : Store := es.foldl on s

variable {s : Store} {x y : StoreSlot} {c : StoreCall} {e : StoreEvent}
  {es es₁ es₂ : List StoreEvent}

theorem Commits.version_le {s' : Store} (h : s.Commits c x s') : s.version ≤ s'.version := by
  by_cases hr : c.Removes
  · exact Nat.le_of_eq (h.removed hr).2.2.symm
  · rw [(h.written hr).1]
    exact Nat.le_succ _

theorem on_other (h : e.slot? ≠ some x) : (s.on e).at? x = s.at? x := by
  cases e with
  | called c =>
    rcases s.answer_settles c with ⟨_, y, hy, hcommits⟩ | ⟨_, hsame⟩
    · exact hcommits.elsewhere x fun he => h (he ▸ hy)
    · exact congrArg (at? · x) hsame
  | addDistribution d =>
    exact (at?_bump _ x).trans (s.at?_setAt_other (x := .distribution _) _ fun he => h (he ▸ rfl))
  | addChild kind space c =>
    exact s.at?_setAt_other (x := .child kind _) _ fun he => h (he ▸ rfl)
  | addConfigMap space m =>
    exact s.at?_setAt_other (x := .configMap _) _ fun he => h (he ▸ rfl)
  | setChildStatus kind k status =>
    exact s.at?_setAt_other (x := .child kind k) _ fun he => h (he ▸ rfl)
  | clearLog | failStatuses message | failDeploymentReads message => cases x <;> rfl

theorem on_version_le (s : Store) (e : StoreEvent) : s.version ≤ (s.on e).version := by
  cases e with
  | called c => exact s.answer_version c
  | addDistribution d => exact Nat.le_succ _
  | _ => exact Nat.le_refl _

theorem replay_version_le (s : Store) (es : List StoreEvent) :
    s.version ≤ (s.replay es).version := by
  induction es generalizing s with
  | nil => exact Nat.le_refl _
  | cons e es ih => exact Nat.le_trans (s.on_version_le e) (ih (s.on e))

theorem replay_append (s : Store) (es₁ es₂ : List StoreEvent) :
    s.replay (es₁ ++ es₂) = (s.replay es₁).replay es₂ := List.foldl_append

theorem on_stamps (h : e.Stamps s) (hx : e.slot? = some x) :
    (s.on e).version = s.version + 1 ∧ (s.on e).version? x = some s.nextVersion := by
  cases e with
  | called c =>
    rcases s.answer_settles c with ⟨_, y, hy, hcommits⟩ | ⟨hnot, _⟩
    · obtain rfl : y = x := Option.some.inj (hy.symm.trans hx)
      exact hcommits.written h.2
    · exact absurd h.1 hnot
  | addDistribution d =>
    cases hx
    refine ⟨rfl, ?_⟩
    have hat : (s.addDistribution d).at? (.distribution (keyIn d.space d.metadata)) =
        some (d.stamped s.nextVersion) := Table.set_same _ _ _
    exact congrArg (Option.bind · _) hat
  | _ => exact h.elim

/-- The versions that were handed out along a history. -/
def HandedOut (s : Store) (es : List StoreEvent) (v : String) : Prop :=
  ∃ es₁ e es₂ x, es = es₁ ++ e :: es₂ ∧ e.Stamps (s.replay es₁) ∧ e.slot? = some x ∧
    ((s.replay es₁).on e).version? x = some v

theorem HandedOut.counted {v : String} (h : s.HandedOut es v) :
    ∃ n ≤ (s.replay es).version, v = toString n := by
  obtain ⟨es₁, e, es₂, x, rfl, hstamps, hx, hv⟩ := h
  obtain ⟨hversion, hstamped⟩ := on_stamps hstamps hx
  have hlater : ((s.replay es₁).on e).version ≤ (s.replay (es₁ ++ e :: es₂)).version := by
    rw [replay_append]
    exact replay_version_le _ es₂
  rw [hv] at hstamped
  refine ⟨(s.replay es₁).version + 1, by omega, Option.some.inj hstamped⟩

/-! What becomes of a single slot. Unless an object is set up there, its version was counted; and
once a client wrote there, an earlier version does not come again. -/

/-- What is in a slot, if anything is, has a version that was counted. -/
def CountedAt (s : Store) (x : StoreSlot) : Prop :=
  ∀ o, s.at? x = some o → ∃ n ≤ s.version, (x.metadata o).resourceVersion = some (toString n)

/-- What is in a slot, if anything is, has a later version. -/
def Overtaken (s : Store) (x : StoreSlot) (n : Nat) : Prop :=
  ∀ o, s.at? x = some o → ∃ m, n < m ∧ (x.metadata o).resourceVersion = some (toString m)

theorem version?_eq {o : x.Object} (h : s.at? x = some o) :
    s.version? x = (x.metadata o).resourceVersion := by
  rw [version?, h]
  rfl

theorem on_untouched (ht : ¬e.Touches s x) (hs : ¬e.SetsUp x) : (s.on e).at? x = s.at? x := by
  by_cases hx : e.slot? = some x
  · cases e with
    | called c =>
      rcases s.answer_settles c with ⟨hwrote, _⟩ | ⟨_, hsame⟩
      · exact absurd ⟨hx, hwrote⟩ ht
      · exact congrArg (at? · x) hsame
    | _ => exact absurd hx hs
  · exact on_other hx

/-- What a client wrote has the next version, unless the client deleted it. -/
theorem on_touched (ht : e.Touches s x) :
    (s.on e).at? x = none ∨
      (s.on e).version = s.version + 1 ∧ (s.on e).version? x = some s.nextVersion := by
  cases e with
  | called c =>
    obtain ⟨hx, hwrote⟩ := ht
    by_cases hr : c.Removes
    · rcases s.answer_settles c with ⟨_, y, hy, hcommits⟩ | ⟨hnot, _⟩
      · obtain rfl : y = x := Option.some.inj (hy.symm.trans hx)
        exact .inl (hcommits.removed hr).2.1
      · exact absurd hwrote hnot
    · exact .inr (on_stamps (e := .called c) ⟨hwrote, hr⟩ hx)
  | _ => exact ht.elim

theorem countedAt_stamped (hversion : (s.on e).version = s.version + 1)
    (hstamped : (s.on e).version? x = some s.nextVersion) : (s.on e).CountedAt x := by
  intro o ho
  rw [version?_eq ho] at hstamped
  exact ⟨s.version + 1, by omega, hstamped⟩

theorem CountedAt.on (h : s.CountedAt x) (hi : ¬e.Installs x) : (s.on e).CountedAt x := by
  have hle := s.on_version_le e
  have hsame : (s.on e).at? x = s.at? x → (s.on e).CountedAt x := by
    intro hat o ho
    obtain ⟨n, hn, hv⟩ := h o (hat ▸ ho)
    exact ⟨n, by omega, hv⟩
  by_cases hx : e.slot? = some x
  · cases e with
    | called c =>
      by_cases ht : (StoreEvent.called c).Touches s x
      · rcases on_touched ht with hnone | ⟨hversion, hstamped⟩
        · intro o ho
          rw [hnone] at ho
          cases ho
        · exact countedAt_stamped hversion hstamped
      · exact hsame (on_untouched ht id)
    | addDistribution d =>
      obtain ⟨hversion, hstamped⟩ := on_stamps (e := .addDistribution d) trivial hx
      exact countedAt_stamped hversion hstamped
    | addChild kind space c => exact absurd hx hi
    | addConfigMap space m => exact absurd hx hi
    | setChildStatus kind k status =>
      cases hx
      intro o ho
      have hat : (s.setChildStatus kind k status).at? (.child kind k) =
          (s.children kind k).map fun c => { c with status := some status } := setChild_same _ _ _ _
      obtain ⟨c, hc, rfl⟩ := Option.map_eq_some_iff.mp (hat.symm.trans ho)
      exact h c hc
    | clearLog | failStatuses message | failDeploymentReads message => cases hx
  · exact hsame (on_other hx)

theorem CountedAt.replay (h : s.CountedAt x) (hi : ∀ e ∈ es, ¬e.Installs x) :
    (s.replay es).CountedAt x := by
  induction es generalizing s with
  | nil => exact h
  | cons e es ih =>
    obtain ⟨hfirst, hrest⟩ := List.forall_mem_cons.mp hi
    exact ih (h.on hfirst) hrest

theorem overtaken_touched {n : Nat} (ht : e.Touches s x) (hn : n ≤ s.version) :
    (s.on e).Overtaken x n := by
  intro o ho
  rcases on_touched ht with hnone | ⟨_, hstamped⟩
  · rw [hnone] at ho
    cases ho
  · rw [version?_eq ho] at hstamped
    exact ⟨s.version + 1, by omega, hstamped⟩

theorem Overtaken.on {n : Nat} (h : s.Overtaken x n) (hn : n ≤ s.version) (hs : ¬e.SetsUp x) :
    (s.on e).Overtaken x n := by
  by_cases ht : e.Touches s x
  · exact overtaken_touched ht hn
  · exact fun o ho => h o (on_untouched ht hs ▸ ho)

theorem Overtaken.replay {n : Nat} (h : s.Overtaken x n) (hn : n ≤ s.version)
    (hs : ∀ e ∈ es, ¬e.SetsUp x) : (s.replay es).Overtaken x n := by
  induction es generalizing s with
  | nil => exact h
  | cons e es ih =>
    obtain ⟨hfirst, hrest⟩ := List.forall_mem_cons.mp hs
    exact ih (h.on hn hfirst) (Nat.le_trans hn (s.on_version_le e)) hrest

/-- Whether some client wrote a slot along a history, or deleted what was there. -/
def Touched (s : Store) (x : StoreSlot) (es : List StoreEvent) : Prop :=
  ∃ es₁ e es₂, es = es₁ ++ e :: es₂ ∧ e.Touches (s.replay es₁) x

theorem replay_untouched (ht : ¬s.Touched x es) (hs : ∀ e ∈ es, ¬e.SetsUp x) :
    (s.replay es).at? x = s.at? x := by
  induction es generalizing s with
  | nil => rfl
  | cons e es ih =>
    obtain ⟨hfirst, hrest⟩ := List.forall_mem_cons.mp hs
    have hlater : ¬(s.on e).Touched x es := by
      rintro ⟨es₁, e', es₂, rfl, htouches⟩
      exact ht ⟨e :: es₁, e', es₂, rfl, htouches⟩
    have hnow : ¬e.Touches s x := fun htouches => ht ⟨[], e, es, rfl, htouches⟩
    exact (ih hlater hrest).trans (on_untouched hnow hfirst)

theorem replay_touched {n : Nat} (ht : s.Touched x es) (hs : ∀ e ∈ es, ¬e.SetsUp x)
    (hn : n ≤ s.version) : (s.replay es).Overtaken x n := by
  obtain ⟨es₁, e, es₂, rfl, htouches⟩ := ht
  have hle : n ≤ (s.replay es₁).version := Nat.le_trans hn (s.replay_version_le es₁)
  rw [replay_append]
  exact (overtaken_touched htouches hle).replay (Nat.le_trans hle (on_version_le _ _))
    fun e' he' => hs e' (by simp [he'])

theorem replace_ok_iff {m : Managed} {space : String} {c : Child} :
    (∃ stored, (s.replace m space c).1 = .ok stored) ↔
      ∃ live, s.at? (.child (.managed m) (keyIn space c.metadata)) = some live ∧
        current c.metadata.resourceVersion live.metadata.resourceVersion = true := by
  unfold replace
  dsimp only [at?]
  cases s.children (.managed m) (keyIn space c.metadata) with
  | none => simp
  | some live =>
    by_cases hcurrent : current c.metadata.resourceVersion live.metadata.resourceVersion = true
    · simp [hcurrent]
    · simp [hcurrent]

/-- Whether what is in a slot was created there by a client, and not set up since. -/
def CreatedBy (x : StoreSlot) (es : List StoreEvent) : Prop :=
  ∃ es₁ kind space c es₂, es = es₁ ++ .called (.create kind space c) :: es₂ ∧
    (StoreEvent.called (.create kind space c)).Touches (empty.replay es₁) x ∧
    ∀ e ∈ es₂, ¬e.Installs x

theorem CreatedBy.counted (h : CreatedBy x es) : (empty.replay es).CountedAt x := by
  obtain ⟨es₁, kind, space, c, es₂, rfl, ⟨hx, hwrote⟩, hi⟩ := h
  have hr : ¬(StoreCall.create kind space c).Removes := by simp [StoreCall.Removes]
  obtain ⟨hversion, hstamped⟩ :=
    on_stamps (e := .called (.create kind space c)) ⟨hwrote, hr⟩ hx
  rw [replay_append]
  exact (countedAt_stamped hversion hstamped).replay hi

/-- A client that replaces what it has read, and names the version that it read, comes through
exactly if nobody wrote or deleted it since. -/
theorem replace_read_iff {m : Managed} {k : Key} {live c : Child} {space : String}
    (hc : s.CountedAt (.child (.managed m) k)) (hlive : s.at? (.child (.managed m) k) = some live)
    (hs : ∀ e ∈ es, ¬e.SetsUp (.child (.managed m) k)) (hk : keyIn space c.metadata = k)
    (hv : c.metadata.resourceVersion = live.metadata.resourceVersion) :
    (∃ stored, ((s.replay es).replace m space c).1 = .ok stored) ↔
      ¬s.Touched (.child (.managed m) k) es := by
  subst hk
  obtain ⟨n, hn, hnumber⟩ := hc live hlive
  have hnumber : live.metadata.resourceVersion = some (toString n) := hnumber
  rw [replace_ok_iff]
  constructor
  · rintro ⟨found, hfound, hcurrent⟩ ht
    obtain ⟨later, hlt, hlater⟩ := replay_touched ht hs hn found hfound
    have hlater : found.metadata.resourceVersion = some (toString later) := hlater
    -- versions are numbers written out, so that a later one is another text
    rw [hv, hnumber, hlater] at hcurrent
    have heq : some (toString n) = some (toString later) := by simpa [current] using hcurrent
    have hsame := version_inj heq
    omega
  · intro ht
    refine ⟨live, (replay_untouched ht hs).trans hlive, ?_⟩
    simp [current, hv]

/-- A call that succeeds wrote, unless it is a read or there was nothing to delete. -/
theorem wrote_of_ok {b : c.Result} (hx : c.slot? = some x) (h : (s.answer c).1 = .ok b)
    (hm : ∀ k, c = .deletePolicy k → s.children .policy k ≠ none) : c.Wrote (s.answer c).1 := by
  cases c with
  | getDistribution k | get kind k | getConfigMap k => cases hx
  | updateStatus k v status => exact h
  | create kind space c | replace m space c | createConfigMap space m => exact ⟨b, h⟩
  | deletePolicy k =>
    have hlive : (s.children .policy k).isSome = true :=
      Option.isSome_iff_ne_none.mpr (hm k rfl)
    exact (s.deletePolicy_answer k).trans (congrArg Except.ok hlive)

/-- What holds of every call after a history in which some versions were handed out. -/
structure Atomic (s : Store) (given : String → Prop) (c : StoreCall) : Prop where
  failed : ∀ e, (s.answer c).1 = .error e → (s.answer c).2 = s
  read : c.slot? = none → (s.answer c).2 = s
  missing : ∀ k, c = .deletePolicy k → s.children .policy k = none → (s.answer c).2 = s
  committed : ∀ x b, c.slot? = some x → (s.answer c).1 = .ok b →
    (∀ k, c = .deletePolicy k → s.children .policy k ≠ none) → s.Commits c x (s.answer c).2
  newest : ∀ x b, c.slot? = some x → (s.answer c).1 = .ok b → ¬c.Removes →
    ∃ n : Nat, (s.answer c).2.version? x = some (toString n) ∧
      ∀ v, given v → ∃ m < n, v = toString m

theorem answer_atomic {given : String → Prop} (hg : ∀ v, given v → ∃ n ≤ s.version, v = toString n)
    (c : StoreCall) : s.Atomic given c := by
  have hsettles := s.answer_settles c
  have hunwritten : ¬c.Wrote (s.answer c).1 → (s.answer c).2 = s := fun hnot => by
    rcases hsettles with ⟨hwrote, _⟩ | ⟨_, hsame⟩
    · exact absurd hwrote hnot
    · exact hsame
  have hwritten : ∀ x b, c.slot? = some x → (s.answer c).1 = .ok b →
      (∀ k, c = .deletePolicy k → s.children .policy k ≠ none) →
        s.Commits c x (s.answer c).2 := by
    intro x b hx hok hm
    rcases hsettles with ⟨_, y, hy, hcommits⟩ | ⟨hnot, _⟩
    · exact Option.some.inj (hy.symm.trans hx) ▸ hcommits
    · exact absurd (wrote_of_ok hx hok hm) hnot
  refine ⟨fun e he => hunwritten ?_, fun hx => hunwritten ?_, fun k hk hnone => hunwritten ?_,
    hwritten, fun x b hx hok hr => ?_⟩
  · rw [he]
    cases c <;> simp [StoreCall.Wrote]
  · cases c with
    | getDistribution k | get kind k | getConfigMap k => exact id
    | _ => cases hx
  · subst hk
    have hanswer : (s.answer (.deletePolicy k)).1 = .ok (s.children .policy k).isSome :=
      s.deletePolicy_answer k
    rw [hanswer, hnone]
    simp [StoreCall.Wrote]
  · have hcommits := hwritten x b hx hok fun k hk => absurd ⟨k, hk⟩ hr
    refine ⟨s.version + 1, (hcommits.written hr).2, fun v hv => ?_⟩
    obtain ⟨n, hn, rfl⟩ := hg v hv
    exact ⟨n, by omega, rfl⟩

/-- After every history of a store, each call changes at most the object that it is about, all of it
or nothing, and gives it a version that is larger than all that were handed out. So of clients that
read what was created there and replace it later, none overwrites what another wrote since. -/
theorem updates_not_lost (es : List StoreEvent) :
    (∀ c, (empty.replay es).Atomic (empty.HandedOut es) c) ∧
    ∀ m k live, CreatedBy (.child (.managed m) k) es →
      ((empty.replay es).answer (.get (.managed m) k)).1 = .ok (some live) →
      ∀ later, (∀ e ∈ later, ¬e.SetsUp (.child (.managed m) k)) →
      ∀ space c, keyIn space c.metadata = k →
        c.metadata.resourceVersion = live.metadata.resourceVersion →
        ((∃ stored, (((empty.replay es).replay later).answer (.replace m space c)).1 = .ok stored) ↔
          ¬(empty.replay es).Touched (.child (.managed m) k) later) := by
  refine ⟨answer_atomic fun v hv => hv.counted, ?_⟩
  intro m k live hcreated hread later hs space c hk hv
  have hget : (empty.replay es).get (.managed m) k = .ok (some live) := hread
  have hlive : (empty.replay es).at? (.child (.managed m) k) = some live := by
    unfold get at hget
    split at hget
    · cases hget
    · exact Except.ok.inj hget
  exact replace_read_iff hcreated.counted hlive hs hk hv

/-- Two clients replace the service that both have read: the first comes through, the second does
not. -/
theorem updates_not_lost_service :
    let live :=
      Child.writtenTo ⟨{ ObjectMeta.blank with name := some "svc" }, none, none⟩ empty "ns"
    let create := StoreCall.create (.managed .service) "ns" live
    let replace := StoreCall.replace .service "ns" live
    let s := empty.replay [.called create]
    (∃ stored, (s.answer replace).1 = .ok stored) ∧
      ¬∃ stored, ((s.replay [.called replace]).answer replace).1 = .ok stored := by
  intro live create replace s
  have hcreated : CreatedBy (.child (.managed .service) ⟨"ns", "svc"⟩) [.called create] :=
    ⟨[], _, _, _, [], rfl, ⟨rfl, _, rfl⟩, by simp⟩
  have hread : (s.answer (.get (.managed .service) ⟨"ns", "svc"⟩)).1 = .ok (some live) := rfl
  have hiff := (updates_not_lost [.called create]).2 .service ⟨"ns", "svc"⟩ live hcreated hread
  have hfirst : ¬s.Touched (.child (.managed .service) ⟨"ns", "svc"⟩) [] := by
    rintro ⟨es₁, e, es₂, hes, _⟩
    simp at hes
  have hsecond : s.Touched (.child (.managed .service) ⟨"ns", "svc"⟩) [.called replace] :=
    ⟨[], _, [], rfl, rfl, _, rfl⟩
  refine ⟨(hiff [] (by simp) "ns" live rfl rfl).mpr hfirst, fun hok => ?_⟩
  have hset : ∀ e ∈ [StoreEvent.called replace],
      ¬e.SetsUp (.child (.managed .service) ⟨"ns", "svc"⟩) :=
    List.forall_mem_singleton.mpr id
  exact (hiff _ hset "ns" live rfl rfl).mp hok hsecond

end Store

end DistributionOperator
