import Mathlib.Data.List.Nodup
import Mathlib.Data.List.Perm.Subperm

/-! A first-in first-out worklist over a mutable state.

Visiting an item changes the state and may queue further items. The driver is
structurally recursive on a bound on the number of visits; `drains_drain` and
`drain_invariant` say that the bound does not matter once it covers the queue and
everything that the state can still put into it. `explore` is the worklist that
collects what a neighbour function reaches.
-/

namespace Worklist

open List

variable {σ α : Type}

/-- Visit the queue in order, at most `fuel` items. -/
def drain (visit : σ → α → σ × List α) : Nat → List α → σ → σ
  | 0, _, s => s
  | _ + 1, [], s => s
  | fuel + 1, a :: queue, s => drain visit fuel (queue ++ (visit s a).2) (visit s a).1

variable {visit : σ → α → σ × List α}

/-- The loop without a bound: from this queue and state it ends in `s'`. -/
inductive Drains (visit : σ → α → σ × List α) : List α → σ → σ → Prop where
  | done (s : σ) : Drains visit [] s s
  | visit {a : α} {queue : List α} {s s' : σ} :
      Drains visit (queue ++ (visit s a).2) (visit s a).1 s' → Drains visit (a :: queue) s s'

section Invariant

variable {fuel : Nat} {queue : List α} {s s' : σ} (Inv : σ → List α → Prop) (potential : σ → Nat)
  (keeps : ∀ s a queue, Inv s (a :: queue) → Inv (visit s a).1 (queue ++ (visit s a).2))

include keeps

variable {Inv} in
/-- An invariant of state and queue holds with the empty queue at the end. -/
theorem Drains.invariant (drains : Drains visit queue s s') (start : Inv s queue) : Inv s' [] := by
  induction drains with
  | done s => exact start
  | visit _ ih => exact ih (keeps _ _ _ start)

variable (pays : ∀ s a queue, Inv s (a :: queue) → potential (visit s a).1 + (visit s a).2.length ≤ potential s)
  (start : Inv s queue) (enough : potential s + queue.length ≤ fuel)

include pays start enough

/-- With a bound that covers the queue and a potential out of which every visit pays for the items
it queues, the driver is the loop. -/
theorem drains_drain : Drains visit queue s (drain visit fuel queue s) := by
  induction fuel generalizing queue s with
  | zero =>
    have empty : queue = [] := length_eq_zero_iff.mp (by omega)
    subst empty
    exact .done s
  | succ fuel ih =>
    cases queue with
    | nil => exact .done s
    | cons a rest =>
      apply Drains.visit
      refine ih (keeps s a rest start) ?_
      have paid := pays s a rest start
      simp only [length_cons, length_append] at enough ⊢
      omega

theorem drain_invariant : Inv (drain visit fuel queue s) [] :=
  (drains_drain Inv potential keeps pays start enough).invariant keeps start

end Invariant

section Search

variable {R : α → α → Prop} {start a : α} {visited pending visited' pending' : List α}

/-- What a search knows that follows a relation: what it has visited and what is pending is reached from the start, and
it has forgotten nothing that follows what it has visited. -/
structure Searched (R : α → α → Prop) (start : α) (visited pending : List α) : Prop where
  begun : start ∈ visited ∨ start ∈ pending
  reached : ∀ a, a ∈ visited ∨ a ∈ pending → Relation.ReflTransGen R start a
  closed : ∀ a ∈ visited, ∀ b, R a b → b ∈ visited ∨ b ∈ pending

theorem searched_start (start : α) : Searched R start [] [start] :=
  ⟨by simp, by simpa using Relation.ReflTransGen.refl, by simp⟩

theorem Searched.skip (searched : Searched R start visited (a :: pending)) (old : a ∈ visited) :
    Searched R start visited pending := by
  have settled : ∀ b, b ∈ visited ∨ b ∈ a :: pending → b ∈ visited ∨ b ∈ pending := by grind
  exact ⟨settled _ searched.begun, fun b found => searched.reached b (by grind),
    fun b isVisited c next => settled c (searched.closed b isVisited c next)⟩

theorem Searched.take (searched : Searched R start visited (a :: pending))
    (isVisited : ∀ b, b ∈ visited' ↔ b = a ∨ b ∈ visited) (kept : pending ⊆ pending')
    (queued : ∀ b ∈ pending', b ∈ pending ∨ R a b) (followed : ∀ b, R a b → b ∈ visited' ∨ b ∈ pending') :
    Searched R start visited' pending' := by
  have settled : ∀ b, b ∈ visited ∨ b ∈ a :: pending → b ∈ visited' ∨ b ∈ pending' := by grind
  have here := searched.reached a (.inr mem_cons_self)
  refine ⟨settled _ searched.begun, fun b found => ?_, fun b isVisited' c next => ?_⟩
  · obtain ⟨rfl | before⟩ | ⟨before | next⟩ := found.imp (isVisited b).mp (queued b)
    · exact here
    · exact searched.reached b (.inl before)
    · exact searched.reached b (.inr (mem_cons_of_mem _ before))
    · exact here.tail next
  · obtain rfl | before := (isVisited b).mp isVisited'
    · exact followed c next
    · exact settled c (searched.closed b before c next)

theorem Searched.mem_iff (searched : Searched R start visited []) : a ∈ visited ↔ Relation.ReflTransGen R start a := by
  refine ⟨fun found => searched.reached a (.inl found), fun path => ?_⟩
  induction path with
  | refl => simpa using searched.begun
  | tail _ next found => simpa using searched.closed _ found _ next

end Search

section Explore

variable [DecidableEq α] {next : α → List α} {seen : List α}

/-- Add the neighbours of `a` that were not seen before, and queue them. -/
def discover (next : α → List α) (seen : List α) (a : α) : List α × List α :=
  (next a).foldl (fun acc b => if b ∈ acc.1 then acc else (acc.1 ++ [b], acc.2 ++ [b])) (seen, [])

def explore (next : α → List α) (fuel : Nat) (queue seen : List α) : List α := drain (discover next) fuel queue seen

theorem discover_eq (next : α → List α) (seen : List α) (a : α) :
    ∃ added : List α, discover next seen a = (seen ++ added, added) ∧ added.Nodup ∧
      (∀ b ∈ added, b ∈ next a ∧ b ∉ seen) ∧ ∀ b ∈ next a, b ∈ seen ++ added := by
  have loop : ∀ (bs seen queued : List α), ∃ added : List α,
      bs.foldl (fun acc b => if b ∈ acc.1 then acc else (acc.1 ++ [b], acc.2 ++ [b])) (seen, queued) =
        (seen ++ added, queued ++ added) ∧ added.Nodup ∧ (∀ b ∈ added, b ∈ bs ∧ b ∉ seen) ∧
      ∀ b ∈ bs, b ∈ seen ++ added := by
    intro bs
    induction bs with
    | nil => exact fun seen queued => ⟨[], by simp⟩
    | cons b rest ih =>
      intro seen queued
      by_cases old : b ∈ seen
      · obtain ⟨added, result, nodup, inside, complete⟩ := ih seen queued
        refine ⟨added, by simp [old, result], nodup, fun x member => ?_, fun x member => ?_⟩
        · exact ⟨mem_cons_of_mem _ (inside x member).1, (inside x member).2⟩
        · rcases mem_cons.mp member with rfl | inRest
          · exact mem_append_left _ old
          · exact complete x inRest
      · obtain ⟨added, result, nodup, inside, complete⟩ := ih (seen ++ [b]) (queued ++ [b])
        refine ⟨b :: added, by simp [old, result], nodup_cons.mpr ⟨fun again => ?_, nodup⟩,
          fun x member => ?_, fun x member => ?_⟩
        · exact (inside b again).2 (by simp)
        · rcases mem_cons.mp member with rfl | inAdded
          · exact ⟨by simp, old⟩
          · have := inside x inAdded
            exact ⟨mem_cons_of_mem _ this.1, fun inSeen => this.2 (mem_append_left _ inSeen)⟩
        · rcases mem_cons.mp member with rfl | inRest
          · simp
          · simpa using complete x inRest
  simpa [discover] using loop (next a) seen []

theorem nodup_discover (nodup : seen.Nodup) (a : α) : (discover next seen a).1.Nodup := by
  obtain ⟨_, result, distinct, inside, _⟩ := discover_eq next seen a
  rw [result]
  exact Nodup.append nodup distinct fun b inSeen inAdded => (inside b inAdded).2 inSeen

theorem nodup_explore (nodup : seen.Nodup) (fuel : Nat) (queue : List α) : (explore next fuel queue seen).Nodup := by
  induction fuel generalizing queue seen with
  | zero => exact nodup
  | succ fuel ih =>
    cases queue with
    | nil => exact nodup
    | cons a rest => exact ih (nodup_discover nodup a) _

variable {vertices queue : List α}

section

variable (inside : ∀ a, next a ⊆ vertices)
include inside

theorem discover_pays (a : α) :
    vertices.countP (fun b => b ∉ (discover next seen a).1) + (discover next seen a).2.length ≤
      vertices.countP fun b => b ∉ seen := by
  obtain ⟨added, result, distinct, new, _⟩ := discover_eq next seen a
  rw [result]
  have enough : added.length ≤ vertices.countP fun b => b ∈ added := by
    rw [countP_eq_length_filter]
    refine (Nodup.subperm distinct fun b member => ?_).length_le
    exact mem_filter.mpr ⟨inside a (new b member).1, by simpa using member⟩
  have split : vertices.countP (fun b => b ∉ seen ++ added) + vertices.countP (fun b => b ∈ added) ≤
      vertices.countP fun b => b ∉ seen := by
    clear enough inside
    induction vertices with
    | nil => simp
    | cons b rest ih =>
      by_cases inSeen : b ∈ seen <;> by_cases inAdded : b ∈ added <;> simp_all <;> omega
  dsimp only
  omega

theorem explore_spec {fuel : Nat} (enough : vertices.length + queue.length ≤ fuel) :
    seen ⊆ explore next fuel queue seen ∧ (∀ a ∈ explore next fuel queue seen,
        a ∈ seen ∨ ∃ q ∈ queue, Relation.ReflTransGen (fun a b => (a ∈ queue ∨ a ∉ seen) ∧ b ∈ next a) q a) ∧
      ∀ a, a ∈ queue ∨ (a ∈ explore next fuel queue seen ∧ a ∉ seen) → next a ⊆ explore next fuel queue seen := by
  let Reached (a : α) : Prop :=
    ∃ q ∈ queue, Relation.ReflTransGen (fun a b => (a ∈ queue ∨ a ∉ seen) ∧ b ∈ next a) q a
  let Inv (now pending : List α) : Prop :=
    seen ⊆ now ∧ (∀ a ∈ now, a ∈ seen ∨ Reached a) ∧ (∀ a ∈ pending, (a ∈ queue ∨ a ∉ seen) ∧ Reached a) ∧
      ∀ a, a ∈ queue ∨ (a ∈ now ∧ a ∉ seen) → a ∈ pending ∨ next a ⊆ now
  have explored : Inv (explore next fuel queue seen) [] := by
    refine drain_invariant Inv (fun now => vertices.countP fun b => b ∉ now) ?_
      (fun now a pending _ => discover_pays inside a) ?_ ?_
    · rintro now a _ ⟨kept, sound, reached, closed⟩
      obtain ⟨added, result, _, new, complete⟩ := discover_eq next now a
      obtain ⟨followed, q, inQueue, path⟩ := reached a (by simp)
      have further : ∀ b ∈ added, (b ∈ queue ∨ b ∉ seen) ∧ Reached b := fun b member =>
        ⟨.inr fun old => (new b member).2 (kept old), q, inQueue, path.tail ⟨followed, (new b member).1⟩⟩
      rw [result]
      refine ⟨fun b member => mem_append_left _ (kept member), fun b member => ?_, fun b member => ?_,
        fun b found => ?_⟩
      · rcases mem_append.mp member with old | inAdded
        · exact sound b old
        · exact .inr (further b inAdded).2
      · rcases mem_append.mp member with old | inAdded
        · exact reached b (mem_cons_of_mem _ old)
        · exact further b inAdded
      · by_cases inAdded : b ∈ added
        · exact .inl (mem_append_right _ inAdded)
        · have before : b ∈ queue ∨ (b ∈ now ∧ b ∉ seen) := by
            rcases found with start | ⟨member, notSeen⟩
            · exact .inl start
            · exact .inr ⟨(mem_append.mp member).resolve_right inAdded, notSeen⟩
          rcases closed b before with waits | done
          · rcases mem_cons.mp waits with rfl | inRest
            · exact .inr complete
            · exact .inl (mem_append_left _ inRest)
          · exact .inr fun c member => mem_append_left _ (done member)
    · refine ⟨fun _ member => member, fun _ member => .inl member,
        fun a member => ⟨.inl member, a, member, .refl⟩, fun a found => .inl ?_⟩
      rcases found with start | ⟨member, notSeen⟩
      · exact start
      · exact absurd member notSeen
    · have := countP_le_length (p := fun b => decide (b ∉ seen)) (l := vertices)
      omega
  obtain ⟨kept, sound, _, closed⟩ := explored
  refine ⟨kept, sound, fun a found => ?_⟩
  rcases closed a found with waits | done
  · cases waits
  · exact done

/-- From a queue that was seen, the exploration adds exactly what paths reach that leave only from
the queue and from what was not seen before. -/
theorem mem_explore {fuel : Nat} (enough : vertices.length + queue.length ≤ fuel)
    (start : queue ⊆ seen) (a : α) :
    a ∈ explore next fuel queue seen ↔
      a ∈ seen ∨ ∃ q ∈ queue, Relation.ReflTransGen (fun a b => (a ∈ queue ∨ a ∉ seen) ∧ b ∈ next a) q a := by
  obtain ⟨kept, sound, closed⟩ := @explore_spec _ _ next seen _ _ inside _ enough
  constructor
  · exact sound a
  · rintro (old | ⟨q, inQueue, path⟩)
    · exact kept old
    · induction path with
      | refl => exact kept (start inQueue)
      | tail _ step found => exact closed _ (step.1.imp_right fun new => ⟨found, new⟩) step.2

end

end Explore

end Worklist
