import FirmwareTasks.Proofs.Run.Body
import FirmwareTasks.Run.Tasks
/-!
The calls that a script hands to the runner, one after another. At each the runner remembers those
before it; the first that does not succeed is the last, and the script fails as this call does.
-/
namespace FirmwareTasks
open EStateM

variable {σ α β : Type}

/-- A call with what the runner has when it gets it. -/
structure Call (σ : Type) where
  inv : Invocation
  memory : σ
  tree : Tree

/-- What a runner makes of a call. -/
def Call.outcome (c : Call σ) (r : Runner σ) : Outcome σ := r c.inv c.memory c.tree

/-- Calls one after another, each with the memory that the runner has after the one before. -/
inductive Runner.Takes (r : Runner σ) : σ → List (Call σ) → σ → Prop
  | nil (m : σ) : Takes r m [] m
  | cons (c : Call σ) {cs : List (Call σ)} {m : σ} (rest : Takes r (c.outcome r).state cs m) :
      Takes r c.memory (c :: cs) m

lemma Runner.Takes.append {r : Runner σ} {m n k : σ} {cs ds : List (Call σ)}
    (h : r.Takes m cs n) (h' : r.Takes n ds k) : r.Takes m (cs ++ ds) k := by
  induction h with
  | nil _ => exact h'
  | cons c _ ih => exact .cons c (ih h')

/-- How an action ends after its calls. All of them have succeeded, unless the last is what it fails
over. -/
inductive Runner.Ends (r : Runner σ) (raises : Error → Prop) :
    List (Call σ) → Result Error (World σ) α → Prop
  | ok {cs : List (Call σ)} {a : α} {u : World σ}
      (succeed : ∀ c ∈ cs, (c.outcome r).result = .ok ()) : Ends r raises cs (.ok a u)
  | own {cs : List (Call σ)} {e : Error} {u : World σ}
      (succeed : ∀ c ∈ cs, (c.outcome r).result = .ok ()) (he : raises e) :
      Ends r raises cs (.error e u)
  | call {cs : List (Call σ)} {c : Call σ} {e : Error} {u : World σ}
      (succeed : ∀ c ∈ cs, (c.outcome r).result = .ok ()) (he : (c.outcome r).result = .error e) :
      Ends r raises (cs ++ [c]) (.error e u)

namespace Runner.Ends
variable {r : Runner σ} {raises : Error → Prop} {cs ds : List (Call σ)}

lemma succeed_of_ok {a : α} {u : World σ} (h : r.Ends raises cs (.ok a u : Result Error _ α)) :
    ∀ c ∈ cs, (c.outcome r).result = .ok () := by
  cases h
  assumption

lemma append_left {x : Result Error (World σ) α} (hcs : ∀ c ∈ cs, (c.outcome r).result = .ok ())
    (h : r.Ends raises ds x) : r.Ends raises (cs ++ ds) x := by
  cases h with
  | ok hds => exact .ok fun c hc => (List.mem_append.1 hc).elim (hcs c) (hds c)
  | own hds he => exact .own (fun c hc => (List.mem_append.1 hc).elim (hcs c) (hds c)) he
  | call hds he =>
    rw [← List.append_assoc]
    exact .call (fun c hc => (List.mem_append.1 hc).elim (hcs c) (hds c)) he

lemma of_error {e : Error} {u : World σ} (h : r.Ends raises cs (.error e u : Result Error _ α)) :
    r.Ends raises cs (.error e u : Result Error _ β) := by
  cases h with
  | own hcs he => exact .own hcs he
  | call hcs he => exact .call hcs he

end Runner.Ends

/-- The calls of an action that starts in a world, and what it comes to. -/
structure Act.Hands (r : Runner σ) (raises : Error → Prop) (w : World σ) (cs : List (Call σ))
    (x : Result Error (World σ) α) : Prop where
  takes : r.Takes w.runner cs x.state.runner
  launches : Event.launches x.state.events = Event.launches w.events ++ cs.map (·.inv)
  ends : r.Ends raises cs x

namespace Act.Hands
variable {r : Runner σ} {raises : Error → Prop} {w : World σ}

lemma nil {x : Result Error (World σ) α} (hm : x.state.runner = w.runner)
    (he : Event.launches x.state.events = Event.launches w.events) (h : r.Ends raises [] x) :
    Hands r raises w [] x where
  takes := hm ▸ .nil _
  launches := by rw [he, List.map_nil, List.append_nil]
  ends := h

lemma bind {m : Act σ α} {f : α → Act σ β} {cs : List (Call σ)} (h : Hands r raises w cs (m w))
    (hf : ∀ a u, m w = .ok a u → ∃ ds, Hands r raises u ds (f a u)) :
    ∃ ds, Hands r raises w ds ((m >>= f) w) := by
  cases hm : m w with
  | ok a u =>
    rw [hm] at h
    obtain ⟨ds, hds⟩ := hf a u hm
    refine ⟨cs ++ ds, ?_⟩
    rw [bind_of_ok hm]
    refine ⟨h.takes.append hds.takes, ?_, hds.ends.append_left h.ends.succeed_of_ok⟩
    rw [hds.launches, List.map_append, ← List.append_assoc]
    exact congrArg (· ++ _) h.launches
  | error e u =>
    rw [hm] at h
    rw [bind_of_error hm]
    exact ⟨cs, h.takes, h.launches, h.ends.of_error⟩

end Act.Hands

namespace Script
variable {ctx : Context σ} {F : Footprint} {m : Act σ α}

/-- A script fails as its footprint allows, or as the call that it hands over last. -/
theorem hands (h : Script ctx F m) (w : World σ) :
    ∃ cs, Act.Hands ctx.runner F.raises w cs (m w) := by
  induction h generalizing w with
  | pure _ => exact ⟨[], .nil rfl rfl (.ok (by simp))⟩
  | throw h => exact ⟨[], .nil rfl rfl (.own (by simp) h)⟩
  | emit _ => exact ⟨[], .nil rfl (by simp [Result.state, Event.launches]) (.ok (by simp))⟩
  | @files _ wrap call h =>
    refine ⟨[], ?_⟩
    cases hc : call w.tree with
    | ok a t => rw [Act.files_of_ok hc]; exact .nil rfl rfl (.ok (by simp))
    | error e t => rw [Act.files_of_error hc]; exact .nil rfl rfl (.own (by simp) (h e))
  | @launch inv _ =>
    let c : Call σ := ⟨inv, w.runner, w.tree⟩
    refine ⟨[c], ?_⟩
    have htakes : ctx.runner.Takes w.runner [c] (ctx.launched inv w).runner := .cons c (.nil _)
    have hlaunches : Event.launches (ctx.launched inv w).events =
        Event.launches w.events ++ [c].map (·.inv) := by
      simp [Context.launched, Event.launches, c]
    cases hr : (ctx.runner inv w.runner w.tree).result with
    | ok _ =>
      rw [Context.launch_of_ok hr]
      exact ⟨htakes, hlaunches, .ok (by simpa [c, Call.outcome] using hr)⟩
    | error e =>
      rw [Context.launch_of_error hr]
      exact ⟨htakes, hlaunches, Runner.Ends.call (List.forall_mem_nil _) hr⟩
  | look _ ih => exact ih w.tree w
  | bind _ _ ihm ihf =>
    obtain ⟨cs, hcs⟩ := ihm w
    exact hcs.bind fun a u hm => ihf a w u hm u

theorem raises (h : Script ctx F m) {w u : World σ} {e : Error} (he : m w = .error e u) :
    F.raises e ∨ ∃ c : Call σ, (c.outcome ctx.runner).result = .error e := by
  obtain ⟨cs, hcs⟩ := h.hands w
  rw [he] at hcs
  cases hcs.ends with
  | own _ h => exact .inl h
  | @call _ c _ _ _ h => exact .inr ⟨c, h⟩

end Script

namespace Context
variable (ctx : Context σ)

end Context
end FirmwareTasks
