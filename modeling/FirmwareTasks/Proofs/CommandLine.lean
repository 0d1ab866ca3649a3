import FirmwareTasks.Program
import FirmwareTasks.Proofs.Sequence
import FirmwareTasks.Proofs.Utf8
import Mathlib.Algebra.GroupWithZero.Nat
import Mathlib.Data.List.Induction
import Mathlib.Data.List.Nodup
import Mathlib.Data.List.Pairwise
/-!
What a command line asks for does not depend on how its arguments are ordered and spelled. An
option with its value, a flag, or the name of a task is a `Phrase`; reading the arguments that a
list of phrases is written as comes to taking the phrases one by one, although the reader settles
an option, or a row of tasks, only when an argument of another kind comes.
-/
namespace FirmwareTasks

namespace Task

/-- A name stands for a task if the task answers to its text. -/
def Named (name : Bytes) (t : Task) : Prop := ∃ text ∈ t.names, name = Utf8.encode text

lemma mem_every (t : Task) : t ∈ every := by cases t <;> decide

lemma eq_of_mem_names {text : String} {t u : Task} (ht : text ∈ t.names) (hu : text ∈ u.names) :
    t = u := by
  obtain ⟨-, hapart⟩ := List.nodup_flatMap.1 nodup_names
  have hsymm : Std.Symm (Function.onFun List.Disjoint names) := ⟨fun _ _ h _ hx hy => h hy hx⟩
  exact Decidable.byContradiction fun hne =>
    hapart.forall (mem_every t) (mem_every u) hne ht hu

lemma find?_eq_some_iff {text : String} {t : Task} : find? text = some t ↔ text ∈ t.names := by
  constructor
  · intro h
    simpa using List.find?_some h
  · intro h
    obtain ⟨u, hu⟩ : ∃ u, find? text = some u :=
      Option.isSome_iff_exists.1 (List.find?_isSome.2 ⟨t, mem_every t, by simpa using h⟩)
    rw [hu, eq_of_mem_names (t := u) (by simpa using List.find?_some hu) h]

end Task

namespace CommandLine

/-! ### Names of tasks -/

theorem taskOf_eq_ok_iff {name : Bytes} {t : Task} : taskOf name = .ok t ↔ Task.Named name t := by
  constructor
  · intro h
    unfold taskOf at h
    split at h
    · cases h
    · split at h
      · cases h
        exact ⟨_, Task.find?_eq_some_iff.1 (by assumption),
          Utf8.decode?_eq_some_iff.1 (by assumption)⟩
      · cases h
  · rintro ⟨text, ht, rfl⟩
    simp [taskOf, Task.find?_eq_some_iff.2 ht]

theorem eq_of_named {name : Bytes} {t u : Task} (ht : Task.Named name t) (hu : Task.Named name u) :
    t = u := by
  rw [← taskOf_eq_ok_iff] at ht hu
  exact Except.ok.inj (ht.symm.trans hu)

lemma mapM_taskOf {names : List Bytes} {ts : List Task} :
    names.mapM taskOf = .ok ts ↔ List.Forall₂ Task.Named names ts := by
  simp only [Except.mapM_eq_ok_iff, taskOf_eq_ok_iff]

def fault (name : Bytes) : Stop := if (Utf8.decode? name).isSome then .notTask name else .notText

theorem taskOf_eq_error {name : Bytes} (h : ∀ t, ¬ Task.Named name t) :
    taskOf name = .error (fault name) := by
  cases hname : taskOf name with
  | ok t => exact absurd (taskOf_eq_ok_iff.1 hname) (h t)
  | error e =>
    unfold taskOf at hname
    split at hname
    · cases hname
      simp [fault, *]
    · split at hname
      · cases hname
      · cases hname
        simp [fault, *]

/-! ### What is written -/

/-- How an option and its value are written. -/
inductive Spelling where
  | shortApart
  | shortJoined
  | longApart
  | longJoined
deriving DecidableEq, Repr

/-- What belongs together on a command line. -/
inductive Phrase where
  | task (name : Bytes)
  /-- The letter for verbosity once, and so many times more, after one dash. -/
  | letters (more : Nat)
  | verbose
  | root (s : Spelling) (dir : Bytes)
  | config (joined : Bool) (file : Bytes)
  | ci
  | list (long : Bool)
deriving DecidableEq, Repr

namespace Phrase

def long (name : String) : Bytes := Utf8.encode ("--" ++ name)

/-- An option by its long name, with its value in the same argument or in the next. -/
def longOption (name : String) (joined : Bool) (value : Bytes) : List Bytes :=
  if joined then [long name ++ equals :: value] else [long name, value]

def written : Phrase → List Bytes
  | task name => [name]
  | letters more => [dash :: (List.replicate (more + 1) (Utf8.encode "v")).flatten]
  | verbose => [long "verbose"]
  | root .shortApart dir => [Utf8.encode "-C", dir]
  | root .shortJoined dir => [Utf8.encode "-C" ++ dir]
  | root .longApart dir => longOption "root" false dir
  | root .longJoined dir => longOption "root" true dir
  | config joined file => longOption "config" joined file
  | ci => [long "ci"]
  | list true => [long "list"]
  | list false => [Utf8.encode "-l"]

/-- A value that can be written in every way. -/
def Value (value : Bytes) : Prop := value ≠ [] ∧ value.head? ≠ some dash ∧ value.head? ≠ some equals

instance (value : Bytes) : Decidable (Value value) := inferInstanceAs (Decidable (_ ∧ _ ∧ _))

/-- A phrase that is read as what it is. -/
def Proper : Phrase → Prop
  | task name => name.head? ≠ some dash
  | root _ dir => Value dir
  | config _ file => Value file
  | _ => True

instance : DecidablePred Proper
  | task name => inferInstanceAs (Decidable (name.head? ≠ some dash))
  | root _ dir => inferInstanceAs (Decidable (Value dir))
  | config _ file => inferInstanceAs (Decidable (Value file))
  | letters _ | verbose | ci | list _ => inferInstanceAs (Decidable True)

@[simp] def task? : Phrase → Option Bytes
  | task name => some name
  | _ => none

@[simp] def verbosity : Phrase → Nat
  | letters more => more + 1
  | verbose => 1
  | _ => 0

@[simp] def root? : Phrase → Option Bytes
  | root _ dir => some dir
  | _ => none

@[simp] def config? : Phrase → Option Bytes
  | config _ file => some file
  | _ => none

@[simp] def isCi : Phrase → Bool
  | ci => true
  | _ => false

@[simp] def isList : Phrase → Bool
  | list _ => true
  | _ => false

def add (p : Phrase) (c : CommandLine) : Except Stop CommandLine :=
  match p with
  | task name => do
    let t ← taskOf name
    return { c with tasks := c.tasks ++ [t] }
  | letters more => return { c with verbose := min verboseLimit (c.verbose + (more + 1)) }
  | verbose => return { c with verbose := min verboseLimit (c.verbose + 1) }
  | root _ dir => setOption c .root dir
  | config _ file => setOption c .config file
  | ci => if c.ci then .error .repeated else return { c with ci := true }
  | list _ => if c.list then .error .repeated else return { c with list := true }

end Phrase

/-! ### Reading a phrase -/

namespace State

/-- What is asked for once everything is settled. -/
def total (s : State) : Except Stop CommandLine := do return (← s.settle).done

/-- Neither waits for a value nor takes every argument for a task. -/
def Ready (s : State) : Prop := s.onlyTasks = false ∧ ∀ o, s.pending ≠ some (.option o none)

end State

/-- What was read comes to what is asked for, and reading can go on. -/
def ComesTo (r : Except Stop State) (x : Except Stop CommandLine) : Prop :=
  (r >>= State.total) = x ∧ ∀ s, r = .ok s → s.Ready

lemma comesTo_error (e : Stop) : ComesTo (.error e) (.error e) :=
  ⟨rfl, fun _ h => nomatch h⟩

lemma comesTo_ok {s : State} (h : s.Ready) : ComesTo (.ok s) s.total := by
  refine ⟨rfl, ?_⟩
  rintro _ ⟨⟩
  exact h

lemma ComesTo.bind {r : Except Stop State} {x : Except Stop CommandLine}
    {f : State → Except Stop State} {g : CommandLine → Except Stop CommandLine} (h : ComesTo r x)
    (hf : ∀ s, r = .ok s → s.Ready → ComesTo (f s) (s.total >>= g)) :
    ComesTo (r >>= f) (x >>= g) := by
  obtain ⟨rfl, hready⟩ := h
  cases r with
  | error e => exact comesTo_error e
  | ok s => exact hf s rfl (hready s rfl)

lemma settle_eq_ok {s t : State} (h : s.settle = .ok t) :
    t.pending = none ∧ t.onlyTasks = s.onlyTasks := by
  unfold State.settle at h
  split at h
  · cases h
    exact ⟨by assumption, rfl⟩
  · cases h
  · obtain ⟨c, -, h⟩ := Except.bind_eq_ok h
    cases h
    exact ⟨rfl, rfl⟩
  · obtain ⟨ts, -, h⟩ := Except.bind_eq_ok h
    cases h
    exact ⟨rfl, rfl⟩

lemma total_of_pending_none {s : State} (h : s.pending = none) : s.total = .ok s.done := by
  simp only [State.total, State.settle, h]
  rfl

lemma ready_of_pending_none {s : State} (h : s.pending = none) (ho : s.onlyTasks = false) :
    s.Ready :=
  ⟨ho, fun o => by rw [h]; exact nofun⟩

lemma comesTo_settle {s : State} (hs : s.Ready) : ComesTo s.settle s.total := by
  constructor
  · unfold State.total
    cases h : s.settle with
    | error e => rfl
    | ok t => exact total_of_pending_none (settle_eq_ok h).1
  · intro t ht
    obtain ⟨hnone, honly⟩ := settle_eq_ok ht
    exact ready_of_pending_none hnone (honly.trans hs.1)

/-- Settles what came before, and then changes what is asked for. -/
def State.settleThen (s : State) (g : CommandLine → Except Stop CommandLine) :
    Except Stop State := do
  let t ← s.settle
  let c ← g t.done
  return { t with done := c }

lemma comesTo_settleThen {s : State} (hs : s.Ready) (g : CommandLine → Except Stop CommandLine) :
    ComesTo (s.settleThen g) (s.total >>= g) := by
  apply (comesTo_settle hs).bind
  intro t ht hready
  have hnone := (settle_eq_ok ht).1
  rw [total_of_pending_none hnone]
  change ComesTo _ (g t.done)
  cases g t.done with
  | error e => exact comesTo_error e
  | ok c =>
    have htotal : ({ t with done := c } : State).total = .ok c := total_of_pending_none hnone
    have h := comesTo_ok (s := { t with done := c }) (ready_of_pending_none hnone hready.1)
    rwa [htotal] at h

lemma foldlM_single (s : State) (arg : Bytes) : [arg].foldlM State.step s = s.step arg := by
  rw [List.foldlM_cons]
  exact bind_pure _

lemma foldlM_pair (s : State) (arg value : Bytes) :
    [arg, value].foldlM State.step s = s.step arg >>= (·.step value) := by
  rw [List.foldlM_cons]
  congr 1
  funext t
  exact foldlM_single t value

/-! ### The ways to write an option -/

lemma flag_verbose (s : State) : s.flag .verbose = s.settleThen (Phrase.add .verbose) := rfl

lemma flag_ci (s : State) : s.flag .ci = s.settleThen (Phrase.add .ci) := by
  unfold State.flag State.settleThen
  congr 1
  funext t
  by_cases h : t.done.ci <;> simp [Phrase.add, h]

lemma flag_list (s : State) (long : Bool) :
    s.flag .list = s.settleThen (Phrase.add (.list long)) := by
  unfold State.flag State.settleThen
  congr 1
  funext t
  by_cases h : t.done.list <;> simp [Phrase.add, h]

lemma option_some (s : State) (o : Valued) (value : Bytes) :
    s.option o (some value) = s.settleThen (setOption · o value) := rfl

lemma step_of_head {s : State} {arg : Bytes} (ho : s.onlyTasks = false)
    (h : arg.head? ≠ some dash) : s.step arg = State.step.plain s arg := by
  unfold State.step
  rw [if_neg (by simp [ho])]
  split
  · simp only [List.head?_cons, ne_eq, Option.some.injEq] at h
    rw [if_neg (by simp [h]), if_neg h]
  · rfl

lemma comesTo_option_apart {s : State} {o : Valued} {value : Bytes} (hs : s.Ready)
    (hv : Phrase.Value value) :
    ComesTo (s.option o none >>= (·.step value)) (s.total >>= (setOption · o value)) := by
  have heq : (s.option o none >>= (·.step value)) =
      s.settle >>= fun t => .ok { t with pending := some (.option o (some value)) } := by
    unfold State.option
    cases h : s.settle with
    | error e => rfl
    | ok t =>
      have ho : ({ t with pending := some (.option o none) } : State).onlyTasks = false :=
        (settle_eq_ok h).2.trans hs.1
      exact step_of_head ho hv.2.1
  rw [heq]
  apply (comesTo_settle hs).bind
  intro t ht hready
  have hdone : (t.total >>= (setOption · o value)) =
      ({ t with pending := some (.option o (some value)) } : State).total := by
    rw [total_of_pending_none (settle_eq_ok ht).1]
    change setOption t.done o value = _
    unfold State.total State.settle
    dsimp only
    cases setOption t.done o value <;> rfl
  rw [hdone]
  apply comesTo_ok
  exact ⟨hready.1, fun _ h => nomatch h⟩

lemma mapM_concat {names : List Bytes} {name : Bytes} :
    (names ++ [name]).mapM taskOf =
      names.mapM taskOf >>= fun ts => taskOf name >>= fun t => .ok (ts ++ [t]) := by
  rw [List.mapM_append]
  cases names.mapM taskOf with
  | error e => rfl
  | ok ts =>
    change ([name].mapM taskOf >>= _) = _
    rw [List.mapM_cons, List.mapM_nil]
    cases taskOf name <;> rfl

lemma comesTo_task {s : State} {name : Bytes} (hs : s.Ready) (hn : name.head? ≠ some dash) :
    ComesTo (s.step name) (s.total >>= (Phrase.add (.task name))) := by
  have hstep : s.step name = s.task name := by
    rw [step_of_head hs.1 hn]
    unfold State.step.plain
    split
    · exact absurd (by assumption) (hs.2 _)
    · rfl
  rw [hstep]
  unfold State.task
  split
  · next names hp =>
    have htotal : (s.total >>= (Phrase.add (.task name))) =
        ({ s with pending := some (.tasks (names ++ [name])) } : State).total := by
      unfold State.total State.settle
      simp only [hp, mapM_concat]
      cases names.mapM taskOf with
      | error e => rfl
      | ok ts =>
        change Phrase.add (.task name) _ = _
        simp only [Phrase.add]
        cases taskOf name with
        | error e => rfl
        | ok t => simp [bind, Except.bind, pure, Except.pure]
    rw [htotal]
    apply comesTo_ok
    exact ⟨hs.1, fun _ h => nomatch h⟩
  · apply (comesTo_settle hs).bind
    intro t ht hready
    have htotal : (t.total >>= (Phrase.add (.task name))) =
        ({ t with pending := some (.tasks [name]) } : State).total := by
      rw [total_of_pending_none (settle_eq_ok ht).1]
      unfold State.total State.settle
      simp only [List.mapM_cons, List.mapM_nil]
      change Phrase.add (.task name) t.done = _
      simp only [Phrase.add]
      cases taskOf name <;> rfl
    rw [htotal]
    apply comesTo_ok
    exact ⟨hready.1, fun _ h => nomatch h⟩

/-! ### Arguments that begin with a dash -/

lemma step_cluster {s : State} {letter : UInt8} {rest : Bytes} (ho : s.onlyTasks = false)
    (h : letter ≠ dash) : s.step (dash :: letter :: rest) = s.cluster (letter :: rest) := by
  simp [State.step, ho, h]

lemma step_long {s : State} {arg : Bytes} (ho : s.onlyTasks = false) (h : arg ≠ []) :
    s.step (dash :: dash :: arg) = s.long arg := by
  simp [State.step, ho, h]

lemma longName_eq_some {name : Bytes} {meaning : Flag ⊕ Valued} (h : longName name = some meaning) :
    name ≠ [] ∧ ∀ b ∈ name, decide (b ≠ equals) = true := by
  obtain ⟨⟨n, m⟩, hn, h⟩ := List.exists_of_findSome?_eq_some h
  have hname : name = Utf8.encode n := by
    by_contra hne
    simp [hne] at h
  subst hname
  clear h
  simp only [List.mem_cons, List.not_mem_nil, or_false, Prod.mk.injEq] at hn
  rcases hn with ⟨rfl, -⟩ | ⟨rfl, -⟩ | ⟨rfl, -⟩ | ⟨rfl, -⟩ | ⟨rfl, -⟩ | ⟨rfl, -⟩ | ⟨rfl, -⟩ <;>
    decide +kernel

lemma long_name {s : State} {name : Bytes} {meaning : Flag ⊕ Valued}
    (h : longName name = some meaning) :
    s.long name = meaning.elim s.flag (s.option · none) := by
  have hname := (longName_eq_some h).2
  have htake : (name ++ []).takeWhile (· ≠ equals) = name ++ [] :=
    List.takeWhile_append_of_pos hname
  have hdrop : (name ++ []).dropWhile (· ≠ equals) = [] := List.dropWhile_append_of_pos hname
  rw [List.append_nil] at htake hdrop
  simp only [State.long, htake, hdrop, h]
  cases meaning <;> rfl

lemma long_option {s : State} {name value : Bytes} {o : Valued}
    (h : longName name = some (.inr o)) :
    s.long (name ++ equals :: value) = s.option o (some value) := by
  have hname := (longName_eq_some h).2
  have htake : (name ++ equals :: value).takeWhile (· ≠ equals) = name ++ [] :=
    List.takeWhile_append_of_pos hname
  have hdrop : (name ++ equals :: value).dropWhile (· ≠ equals) = equals :: value :=
    List.dropWhile_append_of_pos hname
  rw [List.append_nil] at htake
  simp only [State.long, htake, hdrop, h]
  rfl

lemma encode_long (name : String) : Phrase.long name = dash :: dash :: Utf8.encode name := by
  have h : Utf8.encode "--" = [dash, dash] := by decide +kernel
  rw [Phrase.long, Utf8.encode, String.toList_append, List.flatMap_append, ← Utf8.encode, h]
  rfl

lemma step_longName {s : State} {name : String} {meaning : Flag ⊕ Valued} (hs : s.Ready)
    (h : longName (Utf8.encode name) = some meaning) :
    s.step (Phrase.long name) = meaning.elim s.flag (s.option · none) := by
  rw [encode_long, step_long hs.1 (longName_eq_some h).1, long_name h]

lemma comesTo_longOption {s : State} {name : String} {o : Valued} {joined : Bool} {value : Bytes}
    (hs : s.Ready) (hv : Phrase.Value value) (h : longName (Utf8.encode name) = some (.inr o)) :
    ComesTo ((Phrase.longOption name joined value).foldlM State.step s)
      (s.total >>= (setOption · o value)) := by
  cases joined with
  | true =>
    have hstep : (Phrase.longOption name true value).foldlM State.step s =
        s.option o (some value) := by
      rw [Phrase.longOption, if_pos rfl, foldlM_single, encode_long, List.cons_append,
        List.cons_append, step_long hs.1 (by simp), long_option h]
    rw [hstep, option_some]
    exact comesTo_settleThen hs _
  | false =>
    have hstep : (Phrase.longOption name false value).foldlM State.step s =
        s.option o none >>= (·.step value) := by
      rw [Phrase.longOption, if_neg (by decide), foldlM_pair, step_longName hs h]
      rfl
    rw [hstep]
    exact comesTo_option_apart hs hv

lemma comesTo_letterOption {s : State} {dir : Bytes} (hs : s.Ready) (hv : Phrase.Value dir) :
    ComesTo ([Utf8.encode "-C", dir].foldlM State.step s) (s.total >>= (setOption · .root dir)) ∧
    ComesTo ([Utf8.encode "-C" ++ dir].foldlM State.step s)
      (s.total >>= (setOption · .root dir)) := by
  have hC : Utf8.encode "-C" = [dash, 67] := by decide +kernel
  have hname : shortName 67 = some (.inr .root) := by decide +kernel
  have hstep (rest : Bytes) : s.step (dash :: 67 :: rest) = s.cluster (67 :: rest) :=
    step_cluster hs.1 (by decide)
  constructor
  · have h : [Utf8.encode "-C", dir].foldlM State.step s =
        s.option .root none >>= (·.step dir) := by
      rw [foldlM_pair, hC, hstep]
      simp [State.cluster, hname]
    rw [h]
    exact comesTo_option_apart hs hv
  · obtain ⟨b, value, rfl⟩ := List.exists_cons_of_ne_nil hv.1
    have hb : b ≠ equals := by simpa using hv.2.2
    have h : [Utf8.encode "-C" ++ b :: value].foldlM State.step s =
        s.option .root (some (b :: value)) := by
      rw [foldlM_single, hC, List.cons_append, List.cons_append, hstep]
      simp [State.cluster, hname, hb]
    rw [h, option_some]
    exact comesTo_settleThen hs _

lemma cluster_verbose (s : State) (rest : Bytes) :
    s.cluster (Utf8.encode "v" ++ rest) = s.flag .verbose >>= (·.cluster rest) := by
  have hv : Utf8.encode "v" = [118] := by decide +kernel
  have hname : shortName 118 = some (.inl .verbose) := by decide +kernel
  simp [hv, State.cluster, hname]

lemma comesTo_letters {s : State} (hs : s.Ready) (more : Nat) :
    ComesTo (s.cluster (List.replicate (more + 1) (Utf8.encode "v")).flatten)
      (s.total >>= (Phrase.add (.letters more))) := by
  induction more generalizing s with
  | zero =>
    have hone : s.cluster (List.replicate 1 (Utf8.encode "v")).flatten = s.flag .verbose := by
      rw [List.replicate_one, List.flatten_cons, cluster_verbose]
      exact bind_pure _
    rw [hone, flag_verbose]
    exact comesTo_settleThen hs _
  | succ more ih =>
    rw [List.replicate_succ, List.flatten_cons, cluster_verbose]
    have hadd : (Phrase.add (.letters (more + 1))) =
        fun c => Phrase.add .verbose c >>= Phrase.add (.letters more) := by
      funext c
      have hmin : min verboseLimit (c.verbose + (more + 1 + 1)) =
          min verboseLimit (min verboseLimit (c.verbose + 1) + (more + 1)) := by omega
      simp only [Phrase.add, hmin]
      rfl
    rw [hadd, ← bind_assoc, flag_verbose]
    apply (comesTo_settleThen hs _).bind
    intro t _ ht
    exact ih ht

/-! ### A whole command line -/

theorem comesTo_written {s : State} {p : Phrase} (hs : s.Ready) (hp : p.Proper) :
    ComesTo (p.written.foldlM State.step s) (s.total >>= p.add) := by
  cases p with
  | task name =>
    rw [Phrase.written, foldlM_single]
    exact comesTo_task hs hp
  | letters more =>
    have hv : Utf8.encode "v" = [118] := by decide +kernel
    have hletters := comesTo_letters hs more
    rw [List.replicate_succ, List.flatten_cons, hv, List.cons_append] at hletters
    rw [Phrase.written, foldlM_single, List.replicate_succ, List.flatten_cons, hv, List.cons_append,
      step_cluster hs.1 (by decide)]
    exact hletters
  | verbose =>
    have h : longName (Utf8.encode "verbose") = some (.inl .verbose) := by decide +kernel
    rw [Phrase.written, foldlM_single, step_longName hs h, Sum.elim_inl, flag_verbose]
    exact comesTo_settleThen hs _
  | root spelling dir =>
    have h : longName (Utf8.encode "root") = some (.inr .root) := by decide +kernel
    cases spelling with
    | shortApart => exact (comesTo_letterOption hs hp).1
    | shortJoined => exact (comesTo_letterOption hs hp).2
    | longApart => exact comesTo_longOption hs hp h
    | longJoined => exact comesTo_longOption hs hp h
  | config joined file =>
    have h : longName (Utf8.encode "config") = some (.inr .config) := by decide +kernel
    exact comesTo_longOption hs hp h
  | ci =>
    have h : longName (Utf8.encode "ci") = some (.inl .ci) := by decide +kernel
    rw [Phrase.written, foldlM_single, step_longName hs h, Sum.elim_inl, flag_ci]
    exact comesTo_settleThen hs _
  | list long =>
    cases long with
    | true =>
      have h : longName (Utf8.encode "list") = some (.inl .list) := by decide +kernel
      rw [Phrase.written, foldlM_single, step_longName hs h, Sum.elim_inl, flag_list s true]
      exact comesTo_settleThen hs _
    | false =>
      have hl : Utf8.encode "-l" = [dash, 108] := by decide +kernel
      have hname : shortName 108 = some (.inl .list) := by decide +kernel
      have hstep : s.cluster [108] = s.flag .list := by
        simp only [State.cluster, hname]
        exact bind_pure _
      rw [Phrase.written, foldlM_single, hl, step_cluster hs.1 (by decide), hstep,
        flag_list s false]
      exact comesTo_settleThen hs _

/-- The arguments of a list of phrases are read as what the phrases add one after the other. -/
theorem comesTo_flatMap_written {s : State} {ps : List Phrase} (hs : s.Ready)
    (hps : ∀ p ∈ ps, p.Proper) :
    ComesTo ((ps.flatMap Phrase.written).foldlM State.step s)
      (s.total >>= ps.foldlM (fun c p => p.add c)) := by
  induction ps generalizing s with
  | nil =>
    have htotal : (s.total >>= fun c => pure c) = s.total := bind_pure _
    simp only [List.flatMap_nil, List.foldlM_nil, htotal]
    exact comesTo_ok hs
  | cons p ps ih =>
    rw [List.forall_mem_cons] at hps
    have hadd : (p :: ps).foldlM (fun c p => p.add c) =
        fun c => p.add c >>= ps.foldlM (fun c p => p.add c) := by
      funext c
      exact List.foldlM_cons
    rw [List.flatMap_cons, List.foldlM_append, hadd, ← bind_assoc]
    apply (comesTo_written hs hps.1).bind
    intro t _ ht
    exact ih ht hps.2

lemma parse_flatMap_written {ps : List Phrase} (hps : ∀ p ∈ ps, p.Proper) :
    parse (ps.flatMap Phrase.written) =
      ps.foldlM (fun c p => p.add c) {} >>= fun c =>
        if c.tasks = [] ∧ !c.list then .error .missingTask else return c := by
  have hready : ({} : State).Ready := ⟨rfl, fun _ h => nomatch h⟩
  have htotal := (comesTo_flatMap_written hready hps).1
  change _ = ps.foldlM (fun c p => p.add c) {} at htotal
  rw [← htotal, bind_assoc]
  unfold parse State.total
  congr 1
  funext s
  rw [bind_assoc]
  rfl

/-- Every phrase is proper, and no option is given twice. -/
structure WellPut (ps : List Phrase) : Prop where
  proper : ∀ p ∈ ps, p.Proper
  root : (ps.filterMap Phrase.root?).length ≤ 1
  config : (ps.filterMap Phrase.config?).length ≤ 1
  ci : ps.countP Phrase.isCi ≤ 1
  list : ps.countP Phrase.isList ≤ 1

lemma WellPut.of_append {ps qs : List Phrase} (h : WellPut (ps ++ qs)) : WellPut ps := by
  obtain ⟨proper, root, config, ci, list⟩ := h
  simp only [List.filterMap_append, List.length_append, List.countP_append] at *
  refine ⟨fun p hp => proper p (List.mem_append_left _ hp), ?_, ?_, ?_, ?_⟩ <;> omega

/-- What phrases ask for, with the tasks that their names stand for. -/
def asked (ps : List Phrase) (tasks : List Task) : CommandLine where
  verbose := min verboseLimit (ps.map Phrase.verbosity).sum
  root? := (ps.filterMap Phrase.root?).head?
  config? := (ps.filterMap Phrase.config?).head?
  ci := ps.any Phrase.isCi
  list := ps.any Phrase.isList
  tasks

lemma add_asked {ps : List Phrase} {p : Phrase} (h : WellPut (ps ++ [p])) (ts : List Task) :
    p.add (asked ps ts) = do
      let us ← p.task?.toList.mapM taskOf
      return asked (ps ++ [p]) (ts ++ us) := by
  obtain ⟨proper, root, config, ci, list⟩ := h
  have hp := proper p (by simp)
  cases p with
  | task name =>
    simp only [Phrase.add, Phrase.task?, Option.toList_some, List.mapM_cons, List.mapM_nil]
    cases taskOf name with
    | error e => rfl
    | ok t =>
      apply congrArg Except.ok
      simp [asked]
  | letters more =>
    apply congrArg Except.ok
    have hmin (n : Nat) : min verboseLimit (min verboseLimit n + (more + 1)) =
        min verboseLimit (n + (more + 1)) := by omega
    simp [asked, hmin]
  | verbose =>
    apply congrArg Except.ok
    have hmin (n : Nat) : min verboseLimit (min verboseLimit n + 1) =
        min verboseLimit (n + 1) := by omega
    simp [asked, hmin]
  | root spelling dir =>
    have hnone : ps.filterMap Phrase.root? = [] := by
      simpa using root
    have hset : setOption (asked ps ts) .root dir =
        .ok { asked ps ts with root? := some dir } := by
      simp [setOption, asked, hnone, hp.1]
    apply hset.trans
    apply congrArg Except.ok
    simp [asked, hnone]
  | config joined file =>
    have hnone : ps.filterMap Phrase.config? = [] := by
      simpa using config
    have hset : setOption (asked ps ts) .config file =
        .ok { asked ps ts with config? := some file } := by
      simp [setOption, asked, hnone, hp.1]
    apply hset.trans
    apply congrArg Except.ok
    simp [asked, hnone]
  | ci =>
    have hnone : ps.any Phrase.isCi = false := by simpa using ci
    have hci : (asked ps ts).ci = false := hnone
    simp only [Phrase.add, hci]
    apply congrArg Except.ok
    simp [asked]
  | list long =>
    have hnone : ps.any Phrase.isList = false := by simpa using list
    have hlist : (asked ps ts).list = false := hnone
    simp only [Phrase.add, hlist]
    apply congrArg Except.ok
    simp [asked]

theorem foldlM_add {ps : List Phrase} (h : WellPut ps) :
    ps.foldlM (fun c p => p.add c) {} = do
      let ts ← (ps.filterMap Phrase.task?).mapM taskOf
      return asked ps ts := by
  induction ps using List.reverseRecOn with
  | nil => rfl
  | append_singleton ps p ih =>
    have hnames : (ps ++ [p]).filterMap Phrase.task? =
        ps.filterMap Phrase.task? ++ p.task?.toList := by
      rw [List.filterMap_append]
      cases p <;> rfl
    rw [List.foldlM_append, ih h.of_append, hnames, List.mapM_append]
    cases (ps.filterMap Phrase.task?).mapM taskOf with
    | error e => rfl
    | ok ts =>
      have hstep : [p].foldlM (fun c p => p.add c) (asked ps ts) = p.add (asked ps ts) := by
        rw [List.foldlM_cons]
        exact bind_pure _
      apply hstep.trans
      rw [add_asked h ts]
      cases p.task?.toList.mapM taskOf <;> rfl

lemma parse_eq {ps : List Phrase} (h : WellPut ps) :
    parse (ps.flatMap Phrase.written) = do
      let ts ← (ps.filterMap Phrase.task?).mapM taskOf
      if ts = [] ∧ !ps.any Phrase.isList then .error .missingTask else return asked ps ts := by
  rw [parse_flatMap_written h.proper, foldlM_add h, bind_assoc]
  rfl

lemma parse_eq_ok_iff {ps : List Phrase} (h : WellPut ps) {c : CommandLine} :
    parse (ps.flatMap Phrase.written) = .ok c ↔
      ∃ ts, List.Forall₂ Task.Named (ps.filterMap Phrase.task?) ts ∧
        (ts ≠ [] ∨ ps.any Phrase.isList = true) ∧ c = asked ps ts := by
  simp only [parse_eq h, ← mapM_taskOf]
  cases (ps.filterMap Phrase.task?).mapM taskOf with
  | error e =>
    constructor
    · intro h
      cases h
    · rintro ⟨ts, h, -⟩
      cases h
  | ok ts =>
    change (if ts = [] ∧ !ps.any Phrase.isList then _ else _) = _ ↔ _
    by_cases hsome : ts ≠ [] ∨ ps.any Phrase.isList = true
    · have hnot : ¬ (ts = [] ∧ !ps.any Phrase.isList) := by simpa [imp_iff_not_or] using hsome
      rw [if_neg hnot]
      constructor
      · intro h
        cases h
        exact ⟨ts, rfl, hsome, rfl⟩
      · rintro ⟨_, ⟨⟩, -, rfl⟩
        rfl
    · have hnone : ts = [] ∧ !ps.any Phrase.isList := by simpa [not_or] using hsome
      rw [if_pos hnone]
      constructor
      · intro h
        cases h
      · rintro ⟨_, ⟨⟩, h, -⟩
        exact absurd h hsome

lemma shown_min (count : Nat) :
    Level.shown none (min count 255) =
      some (if count = 0 then .info else if count = 1 then .debug else .trace) := by
  match count with
  | 0 => rfl
  | 1 => rfl
  | n + 2 =>
    have hmin : min (n + 2) 255 = min n 253 + 2 := by omega
    rw [hmin, if_neg (by omega), if_neg (by omega)]
    rfl

/-- However phrases are ordered and spelled, the command line is read exactly if its names are
names of tasks, of which there is one unless a list is asked for. Then it asks for these tasks in
this order, for as much to be said as there are verbosity flags, up to a limit far above the last
level, and for what its other options say. Otherwise the first name that is none is to blame, or
that there is none. -/
theorem phrases_read_in_any_order (ps : List Phrase) (h : WellPut ps) :
    let names := ps.filterMap Phrase.task?
    let count := (ps.map Phrase.verbosity).sum
    let outcome := parse (ps.flatMap Phrase.written)
    ((∃ c, outcome = .ok c) ↔
      (∀ name ∈ names, ∃ t, Task.Named name t) ∧ (names ≠ [] ∨ ps.any Phrase.isList)) ∧
    (∀ c, outcome = .ok c →
      List.Forall₂ Task.Named names c.tasks ∧
      c.verbose = min count 255 ∧
      Level.shown none c.verbose =
        some (if count = 0 then .info else if count = 1 then .debug else .trace) ∧
      c.root = ⟨(ps.filterMap Phrase.root?).head?.getD Path.dot⟩ ∧
      c.config? = (ps.filterMap Phrase.config?).head? ∧
      c.ci = ps.any Phrase.isCi ∧
      c.list = ps.any Phrase.isList) ∧
    (∀ before name rest, names = before ++ name :: rest →
      (∀ b ∈ before, ∃ t, Task.Named b t) → (∀ t, ¬ Task.Named name t) →
      outcome = .error (if (Utf8.decode? name).isSome then .notTask name else .notText)) ∧
    (names = [] → ps.any Phrase.isList = false → outcome = .error .missingTask) ∧
    ∀ name t u, Task.Named name t → Task.Named name u → t = u := by
  intro names count outcome
  refine ⟨?_, ?_, ?_, ?_, fun _ _ _ => eq_of_named⟩
  · rw [← List.exists_forall₂_iff]
    constructor
    · rintro ⟨c, hc⟩
      obtain ⟨ts, hts, hsome, -⟩ := (parse_eq_ok_iff h).1 hc
      exact ⟨⟨ts, hts⟩, hsome.imp_left (hts.eq_nil_iff.not.2)⟩
    · rintro ⟨⟨ts, hts⟩, hsome⟩
      exact ⟨_, (parse_eq_ok_iff h).2 ⟨ts, hts, hsome.imp_left (hts.eq_nil_iff.not.1), rfl⟩⟩
  · intro c hc
    obtain ⟨ts, hts, -, rfl⟩ := (parse_eq_ok_iff h).1 hc
    have hverbose : (asked ps ts).verbose = min count 255 := Nat.min_comm _ _
    refine ⟨hts, hverbose, ?_, rfl, rfl, rfl, rfl⟩
    rw [hverbose, shown_min]
  · intro before name rest hnames hbefore hname
    have herror : names.mapM taskOf = .error (fault name) := by
      rw [Except.mapM_eq_error_iff]
      refine ⟨before, name, rest, hnames, ?_, taskOf_eq_error hname⟩
      intro b hb
      obtain ⟨t, ht⟩ := hbefore b hb
      exact ⟨t, taskOf_eq_ok_iff.2 ht⟩
    apply (parse_eq h).trans
    change (names.mapM taskOf >>= _) = _
    rw [herror]
    rfl
  · intro hnames hlist
    apply (parse_eq h).trans
    change (names.mapM taskOf >>= _) = _
    rw [hnames, hlist]
    rfl

theorem phrases_read_between_options :
    let all := Utf8.encode "all"
    let clean := Utf8.encode "clean"
    let ps : List Phrase :=
      [.task all, .letters 1, .root .longJoined (Utf8.encode "x"), .task clean, .ci]
    WellPut ps ∧ ∃ c, parse (ps.flatMap Phrase.written) = .ok c ∧
      List.Forall₂ Task.Named [all, clean] c.tasks ∧ Level.shown none c.verbose = some .trace := by
  intro all clean ps
  have hall : Task.Named all .all := ⟨"all", by decide, rfl⟩
  have hclean : Task.Named clean .clean := ⟨"clean", by decide, rfl⟩
  have h : WellPut ps := ⟨by decide +kernel, by decide, by decide, by decide, by decide⟩
  have hread := phrases_read_in_any_order ps h
  obtain ⟨c, hc⟩ := hread.1.2 ⟨by simp [ps]; exact ⟨⟨_, hall⟩, _, hclean⟩, .inl (by simp [ps])⟩
  obtain ⟨htasks, -, hlevel, -⟩ := hread.2.1 c hc
  exact ⟨h, c, hc, htasks, hlevel⟩

/-- A word that is no text names no task, and is refused as no text, not as no task. -/
theorem broken_name_refused_as_no_text :
    WellPut [.task [255]] ∧ (∀ t, ¬ Task.Named [255] t) ∧
      ∀ name, parse ([.task [255]].flatMap Phrase.written) ≠ .error (.notTask name) := by
  have htask : taskOf [255] = .error .notText := by decide +kernel
  have hparse : parse ([.task [255]].flatMap Phrase.written) = .error .notText := by decide +kernel
  refine ⟨⟨by decide, by decide, by decide, by decide, by decide⟩, ?_, ?_⟩
  · intro t ht
    rw [taskOf_eq_ok_iff.2 ht] at htask
    cases htask
  · intro name h
    rw [hparse] at h
    cases h

end CommandLine
end FirmwareTasks
