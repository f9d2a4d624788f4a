import DistributionOperator.Http.ApiClient
import DistributionOperator.Watch.Queue

/-! Listening to the cluster. What is watched is listed once, and events about it follow. An event
that comes without a version is refused, since the next ones could not be asked for. Then nothing is
taken in for a while, and after that what the event was about is listed anew. -/

namespace DistributionOperator

/-- What happens in the cluster. Of a child it matters only whose it is, whatever happens to it. -/
inductive Event where
  | present (d : Distribution)
  | gone (d : Distribution)
  | child (kind : ChildKind) (m : ObjectMeta)
deriving DecidableEq

inductive Watched where
  | distributions
  | children (kind : ChildKind)
deriving DecidableEq

namespace Watched

def all : List Watched := .distributions :: ChildKind.all.map .children

def resource : Watched → Http.ApiResource
  | .distributions => .distribution
  | .children kind => .child kind

end Watched

namespace Event

def watched : Event → Watched
  | .present _ | .gone _ => .distributions
  | .child kind _ => .children kind

def metadata : Event → ObjectMeta
  | .present d | .gone d => d.metadata
  | .child _ m => m

def isVersioned (e : Event) : Bool := e.metadata.resourceVersion.getD "" ≠ ""

end Event

structure Listing where
  distributions : List Distribution
  children : ChildKind → List ObjectMeta

def Listing.events (l : Listing) : Watched → List Event
  | .distributions => l.distributions.map .present
  | .children kind => (l.children kind).map (.child kind)

/-- What listening meets with: what is listed at a time, and for how long nothing is taken in once
an event is refused at a time. The latter grows with refusals in a row and may depend on chance. -/
structure Surroundings where
  listed : Nat → Listing
  pause : Nat → Nat

/-- A time in which nothing is taken in. What happens to the resource that is to be listed anew is
lost, all other events wait. -/
structure Lull where
  ends : Nat
  stale : Watched
  held : List Event

/-- What the watching part knows: the distributions that are there, the generation last seen of
each, the visits to come, and whether it is in a lull. -/
structure Watch where
  known : Reference → Option Distribution
  generations : Reference → Option Int64
  queue : Queue
  lull : Option Lull

namespace Watch

def blank : Watch := ⟨fun _ => none, fun _ => none, [], none⟩

/-- A distribution without a space is found in any. -/
def find (w : Watch) (ref : Reference) : Option Distribution :=
  (w.known ref).or (w.known { ref with space := none })

def isNews (w : Watch) (d : Distribution) : Bool :=
  match d.metadata.generation with
  | none => true
  | some g => w.generations (.ofMeta d.metadata) ≠ some g

def learn (w : Watch) (ref : Reference) (d : Option Distribution) : Watch :=
  { w with known := fun r => if r = ref then d else w.known r }

def sawGeneration (w : Watch) (ref : Reference) (g : Option Int64) : Watch :=
  match g with
  | none => w
  | some g => { w with generations := fun r => if r = ref then some g else w.generations r }

def trigger (w : Watch) (time : Nat) (ref : Reference) : Watch :=
  { w with queue := w.queue.trigger ref time }

def ownersOf (m : ObjectMeta) : List Reference :=
  (m.owners.filter fun o =>
    o.apiVersion = Distribution.apiVersion && o.kind = Distribution.kind).map fun o =>
      ⟨m.space, o.name⟩

def take (time : Nat) (w : Watch) : Event → Watch
  | .present d =>
    let ref := .ofMeta d.metadata
    let later := (w.learn ref (some d)).sawGeneration ref d.metadata.generation
    if w.isNews d then later.trigger time ref else later
  | .gone d => w.learn (.ofMeta d.metadata) none
  | .child _ m => (ownersOf m).foldl (·.trigger time ·) w

def hear (a : Surroundings) (time : Nat) (w : Watch) (e : Event) : Watch :=
  if e.isVersioned then w.take time e
  else { w with lull := some ⟨time + a.pause time, e.watched, []⟩ }

def observe (a : Surroundings) (time : Nat) (w : Watch) (e : Event) : Watch :=
  match w.lull with
  | none => w.hear a time e
  | some l =>
    if e.watched = l.stale then w else { w with lull := some { l with held := l.held ++ [e] } }

/-- Of the distributions only those that are listed are known from then on. What is listed is taken
as it is, with a version or without one. -/
def relist (a : Surroundings) (time : Nat) (w : Watch) (r : Watched) : Watch :=
  ((a.listed time).events r).foldl (take time)
    (match r with
      | .distributions => { w with known := fun _ => none }
      | .children _ => w)

/-- The end of a lull. Among the events that waited there may be one that begins the next. -/
def resume (a : Surroundings) (w : Watch) (l : Lull) : Watch :=
  l.held.foldl (observe a l.ends) (relist a l.ends { w with lull := none } l.stale)

def start (a : Surroundings) : Watch := Watched.all.foldl (relist a 0) blank

@[simp] theorem learn_lull (w : Watch) (ref : Reference) (d : Option Distribution) :
    (w.learn ref d).lull = w.lull := rfl

@[simp] theorem sawGeneration_lull (w : Watch) (ref : Reference) (g : Option Int64) :
    (w.sawGeneration ref g).lull = w.lull := by
  cases g <;> rfl

@[simp] theorem trigger_lull (w : Watch) (time : Nat) (ref : Reference) :
    (w.trigger time ref).lull = w.lull := rfl

theorem triggers_eq (time : Nat) (refs : List Reference) (w : Watch) :
    refs.foldl (·.trigger time ·) w =
      { w with queue := refs.foldl (fun q ref => Queue.trigger ref time q) w.queue } := by
  induction refs generalizing w with
  | nil => rfl
  | cons ref refs ih => exact ih (w.trigger time ref)

@[simp] theorem take_lull (time : Nat) (w : Watch) (e : Event) : (w.take time e).lull = w.lull := by
  cases e with
  | present d =>
    simp only [take]
    split <;> simp
  | gone d => rfl
  | child kind m => simp only [take, triggers_eq]

@[simp] theorem relist_lull (a : Surroundings) (time : Nat) (w : Watch) (r : Watched) :
    (w.relist a time r).lull = w.lull := by
  have htaken (es : List Event) (v : Watch) : (es.foldl (take time) v).lull = v.lull := by
    induction es generalizing v with
    | nil => rfl
    | cons e es ih => exact (ih _).trans (take_lull time v e)
  cases r <;> exact htaken _ _

/-- How often at most the watching part still has to wake from a lull, if no more events come. -/
def pending (w : Watch) : Nat := w.lull.elim 0 fun l => l.held.length + 1

theorem pending_observe_le (a : Surroundings) (time : Nat) (w : Watch) (e : Event) :
    (w.observe a time e).pending ≤ w.pending + 1 := by
  cases hl : w.lull with
  | none =>
    simp only [observe, hl, hear]
    split <;> simp [pending, hl]
  | some l =>
    simp only [observe, hl]
    split <;> simp [pending, hl]

theorem pending_observed_le (a : Surroundings) (time : Nat) (es : List Event) (w : Watch) :
    (es.foldl (observe a time) w).pending ≤ w.pending + es.length := by
  induction es generalizing w with
  | nil => exact Nat.le_refl _
  | cons e es ih =>
    have hrest := ih (w.observe a time e)
    have hfirst := pending_observe_le a time w e
    simp only [List.foldl_cons, List.length_cons]
    omega

theorem pending_resume_lt (a : Surroundings) {w : Watch} {l : Lull} (h : w.lull = some l) :
    (w.resume a l).pending < w.pending := by
  have hle := pending_observed_le a l.ends l.held (relist a l.ends { w with lull := none } l.stale)
  have hawake : (relist a l.ends { w with lull := none } l.stale).pending = 0 := by
    simp [pending]
  have hbefore : w.pending = l.held.length + 1 := by simp [pending, h]
  rw [hawake] at hle
  rw [hbefore]
  exact Nat.lt_succ_of_le (by simpa [resume] using hle)

end Watch

end DistributionOperator
