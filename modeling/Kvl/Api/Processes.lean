import Kvl.Api.Generate
import Kvl.Lib.Machine

/-!
# The generator processes of a server

Any number of threads call `generate` on one runtime. The threads interleave
operation by operation, and a child exits whenever it wants to. The lock is to
keep two children from running at once.
-/

namespace Kvl

set_option autoImplicit false

open PyText Machine

/-- A child process, with the signals it was sent. -/
structure Child where
  terminated : Bool
  killed : Bool
  exit : Option Int
  deriving DecidableEq, Repr

def Child.terminate (p : Child) : Child := { p with terminated := true }
def Child.kill (p : Child) : Child := { p with killed := true }

structure Runtime (T δ : Type*) where
  lock : Option T
  calls : T → Option (GenCall δ)
  /-- Every process that was started; its place is its pid. -/
  children : List Child

inductive ServerEvent (T : Type*)
  /-- The thread calls `generate`. -/
  | generate (t : T) (promptTokens : Nat) (maxTokens : Int) (nonneg streaming : Bool)
  /-- The operation of the thread's call ends. -/
  | ends (t : T) (r : Reply)
  /-- A child exits. -/
  | exits (pid : Nat) (rc : Int)

variable {T δ : Type*}

def Runtime.initial : Runtime T δ := ⟨none, fun _ => none, []⟩

def Running (children : List Child) (pid : Nat) : Prop :=
  ∃ p, children[pid]? = some p ∧ p.exit = none

/-- A process that `generate` started and that has not exited. -/
def Runtime.Alive (s : Runtime T δ) (pid : Nat) : Prop := Running s.children pid

/-- The exit code of the process of a call, `none` while it runs. -/
def Runtime.exitOf (s : Runtime T δ) (c : GenCall δ) : Option Int :=
  c.proc.bind fun pid => s.children[pid]?.bind Child.exit

/-- The replies that the lock and the child leave open for the operation of a call. A
`wait` with a timeout may expire although the child has just exited. -/
def Runtime.Answers (s : Runtime T δ) (c : GenCall δ) (r : Reply) : Prop :=
  match c.pc, r with
  | .acquire, _ => s.lock.isNone = true
  | .popen, .spawned pid => pid = s.children.length
  | .wait, .exited rc => s.exitOf c = some rc
  | .poll _, .exited rc => s.exitOf c = some rc
  | .poll _, .running => s.exitOf c = none
  | .waitTimeout _, .exited rc => s.exitOf c = some rc
  | _, _ => True

instance (s : Runtime T δ) (c : GenCall δ) (r : Reply) : Decidable (s.Answers c r) := by
  unfold Runtime.Answers
  split <;> infer_instance

/-- A signal reaches a child that has not exited. -/
def signalled (f : Child → Child) (p : Child) : Child := if p.exit = none then f p else p

def Runtime.signal (s : Runtime T δ) (f : Child → Child) (proc : Option Nat) : List Child :=
  match proc with
  | none => s.children
  | some pid => s.children.modify pid (signalled f)

variable [DecidableEq T]

def Runtime.setCall (s : Runtime T δ) (t : T) (c : GenCall δ) : Runtime T δ :=
  { s with calls := Function.update s.calls t (some c) }

def Runtime.perform (s : Runtime T δ) (t : T) (c : GenCall δ) (eff : Effect) : Runtime T δ :=
  match eff with
  | .none => s.setCall t c
  | .acquire => { s.setCall t c with lock := some t }
  | .release => { s.setCall t c with lock := none }
  | .spawn => { s.setCall t c with children := s.children ++ [⟨false, false, none⟩] }
  | .terminate => { s.setCall t c with children := s.signal Child.terminate c.proc }
  | .kill => { s.setCall t c with children := s.signal Child.kill c.proc }

/-- A thread is free for a request when it has no call, or a finished one. -/
def Runtime.free (s : Runtime T δ) (t : T) : Bool :=
  match s.calls t with
  | none => true
  | some c =>
    match c.pc with
    | .finished _ => true
    | _ => false

def Runtime.step (codec : Codec δ) (cfg : Plan.PlanConfig) (s : Runtime T δ) :
    ServerEvent T → Option (Runtime T δ)
  | .generate t promptTokens maxTokens nonneg streaming =>
    if s.free t then
      match generateStart codec cfg promptTokens maxTokens nonneg streaming with
      | .error _ => some s
      | .ok c => some (s.setCall t c)
    else none
  | .ends t r =>
    match s.calls t with
    | none => none
    | some c =>
      if s.Answers c r then (c.resume codec r).map fun next => s.perform t next.1 next.2
      else none
  | .exits pid rc =>
    match s.children[pid]? with
    | none => none
    | some p =>
      if p.exit = none then some { s with children := s.children.set pid { p with exit := some rc } }
      else none

/-- No `wait(timeout=3)` expires on a child that has not exited. -/
def InTime (s : Runtime T δ) : ServerEvent T → Prop
  | .ends t .expired => ∀ c, s.calls t = some c → s.exitOf c ≠ none
  | _ => True

/-- At most one child is alive, and the thread that started it holds the lock. -/
def Runtime.OneChild (s : Runtime T δ) : Prop :=
  (∀ p q, s.Alive p → s.Alive q → p = q) ∧
    ∀ p, s.Alive p → ∃ t c, s.lock = some t ∧ s.calls t = some c ∧ c.proc = some p

section Children

variable {children : List Child} {pid : Nat}

omit [DecidableEq T]

theorem Running.lt (h : Running children pid) : pid < children.length := by
  obtain ⟨p, hp, _⟩ := h
  exact (List.getElem?_eq_some_iff.mp hp).1

theorem running_append (children : List Child) (pid : Nat) :
    Running (children ++ [⟨false, false, none⟩]) pid ↔
      Running children pid ∨ pid = children.length := by
  constructor
  · intro h
    have hlt := h.lt
    rw [List.length_append, List.length_singleton] at hlt
    by_cases heq : pid = children.length
    · exact Or.inr heq
    · obtain ⟨p, hp, hrun⟩ := h
      rw [List.getElem?_append_left (by omega)] at hp
      exact Or.inl ⟨p, hp, hrun⟩
  · rintro (⟨p, hp, hrun⟩ | rfl)
    · refine ⟨p, ?_, hrun⟩
      rw [List.getElem?_append_left (List.getElem?_eq_some_iff.mp hp).1, hp]
    · exact ⟨_, List.getElem?_concat_length, rfl⟩

/-- A signal does not make a child exit. -/
theorem signalled_exit {f : Child → Child} (hf : ∀ p, (f p).exit = p.exit) (p : Child) :
    (signalled f p).exit = p.exit := by
  unfold signalled
  split
  · exact hf p
  · rfl

theorem getElem?_signal_exit {f : Child → Child} (hf : ∀ p, (f p).exit = p.exit)
    (s : Runtime T δ) (proc : Option Nat) (pid : Nat) :
    (s.signal f proc)[pid]?.map Child.exit = s.children[pid]?.map Child.exit := by
  cases proc with
  | none => rfl
  | some q =>
    simp only [Runtime.signal, List.getElem?_modify]
    cases s.children[pid]? with
    | none => rfl
    | some p =>
      by_cases hq : q = pid
      · simp [hq, signalled_exit hf]
      · simp [hq]

theorem running_iff_map (children : List Child) (pid : Nat) :
    Running children pid ↔ children[pid]?.map Child.exit = some none := by
  unfold Running
  rw [Option.map_eq_some_iff]

theorem running_signal {f : Child → Child} (hf : ∀ p, (f p).exit = p.exit)
    (s : Runtime T δ) (proc : Option Nat) (pid : Nat) :
    Running (s.signal f proc) pid ↔ s.Alive pid := by
  unfold Runtime.Alive
  rw [running_iff_map, running_iff_map, getElem?_signal_exit hf]

theorem length_signal (f : Child → Child) (s : Runtime T δ) (proc : Option Nat) :
    (s.signal f proc).length = s.children.length := by
  cases proc with
  | none => rfl
  | some q => exact List.length_modify ..

theorem running_of_set {p : Child} {rc : Int} {q : Nat}
    (h : Running (children.set q { p with exit := some rc }) pid) : Running children pid := by
  obtain ⟨c, hc, hrun⟩ := h
  rw [List.getElem?_set] at hc
  by_cases hq : q = pid
  · rw [if_pos hq] at hc
    by_cases hlt : q < children.length
    · rw [if_pos hlt] at hc
      cases hc
      cases hrun
    · rw [if_neg hlt] at hc
      cases hc
  · rw [if_neg hq] at hc
    exact ⟨c, hc, hrun⟩

end Children

/-! ### The invariant -/

/-- The operations inside `with self.lock`. -/
def GenPc.holding : GenPc → Bool
  | .acquire | .finished _ => false
  | _ => true

/-- The operations before `Popen` has returned. -/
def GenPc.early : GenPc → Bool
  | .acquire | .writeIds | .popen => true
  | _ => false

/-- The operations at which the child, if there is one, has exited. -/
def GenPc.settled : GenPc → Bool
  | .onTail _ | .kill _ | .unlink _ | .release _ | .finished _ => true
  | _ => false

structure RuntimeInv (s : Runtime T δ) : Prop where
  locked : ∀ t, s.lock = some t ↔ ∃ c, s.calls t = some c ∧ c.pc.holding = true
  early : ∀ t c, s.calls t = some c → c.pc.early = true → c.proc = none
  started : ∀ t c pid, s.calls t = some c → c.proc = some pid → pid < s.children.length
  settled : ∀ t c pid, s.calls t = some c → c.pc.settled = true → c.proc = some pid →
    ¬ s.Alive pid
  owned : ∀ pid, s.Alive pid →
    ∃ t c, s.calls t = some c ∧ c.pc.holding = true ∧ c.proc = some pid

/-- What is kept by an operation that leaves the lock and the number of children alone. -/
structure Keeps (c next : GenCall δ) (exited : Prop) : Prop where
  holding : c.pc.holding = true
  holding' : next.pc.holding = true
  proc : next.proc = c.proc
  early : next.pc.early = true → c.pc.early = true
  settled : next.pc.settled = true → c.pc.early = true ∨ c.pc.settled = true ∨ c.proc = none ∨ exited

section Resume

omit [DecidableEq T]

variable {codec : Codec δ} {c next : GenCall δ} {exited : Prop}

theorem GenCall.fail_keeps (e : Exc) (h : c.pc.holding = true) : Keeps c (c.fail e) exited := by
  unfold GenCall.fail
  cases hp : c.proc with
  | none =>
    constructor
    · exact h
    · rfl
    · exact hp.symm
    · intro hearly
      cases hearly
    · intro _
      exact Or.inr (Or.inr (Or.inl hp))
  | some pid =>
    constructor
    · exact h
    · rfl
    · exact hp.symm
    · intro hearly
      cases hearly
    · intro hsettled
      cases hsettled

/-- The next operation is inside the lock, and it is none of those that need an exit. -/
theorem Keeps.of_pc (h : c.pc.holding = true) (hproc : next.proc = c.proc)
    (hhold : next.pc.holding = true) (hearly : next.pc.early = false)
    (hsettled : next.pc.settled = true →
      c.pc.early = true ∨ c.pc.settled = true ∨ exited) : Keeps c next exited := by
  constructor
  · exact h
  · exact hhold
  · exact hproc
  · intro he
    rw [hearly] at he
    cases he
  · intro hs
    rcases hsettled hs with he | hs | hexit
    · exact Or.inl he
    · exact Or.inr (Or.inl hs)
    · exact Or.inr (Or.inr (Or.inr hexit))

theorem GenCall.consume_keeps (raw : Str) (h : c.pc = .readLine) :
    Keeps c (c.consume codec raw) exited := by
  have hhold : c.pc.holding = true := by
    rw [h]
    rfl
  have hread : ∀ d : GenCall δ, d.pc = c.pc → d.proc = c.proc → Keeps c d exited := by
    intro d hpc hproc
    rw [h] at hpc
    apply Keeps.of_pc hhold hproc <;> rw [hpc]
    · rfl
    · rfl
    · intro hs
      cases hs
  unfold GenCall.consume
  cases parseTokenLine raw with
  | none => exact hread c rfl rfl
  | some parsed =>
    cases parsed with
    | error e => exact GenCall.fail_keeps e hhold
    | ok token =>
      simp only
      split
      · exact Keeps.of_pc hhold rfl rfl rfl fun hs => by cases hs
      · cases decodeToken codec c.decoder token with
        | error e =>
          have hfail : Keeps { c with outputTokens := c.outputTokens + 1 } _ exited :=
            GenCall.fail_keeps e hhold
          exact ⟨hfail.holding, hfail.holding', hfail.proc, hfail.early, hfail.settled⟩
        | ok read =>
          simp only [GenCall.deliver]
          split
          · exact hread _ rfl rfl
          · split
            · exact Keeps.of_pc hhold rfl rfl rfl fun hs => by cases hs
            · exact hread _ rfl rfl

theorem GenCall.afterWait_keeps (rc : Int) (h : c.pc = .wait) (hexit : exited) :
    Keeps c (c.afterWait codec rc) exited := by
  have hhold : c.pc.holding = true := by
    rw [h]
    rfl
  unfold GenCall.afterWait
  split
  · exact GenCall.fail_keeps _ hhold
  · simp only
    split
    · exact Keeps.of_pc hhold rfl rfl rfl fun _ => Or.inr (Or.inr hexit)
    · split
      · exact Keeps.of_pc hhold rfl rfl rfl fun _ => Or.inr (Or.inr hexit)
      · exact Keeps.of_pc hhold rfl rfl rfl fun _ => Or.inr (Or.inr hexit)

/-- What an operation that has ended does to the call, the lock and the child. -/
inductive Resumes (c next : GenCall δ) (r : Reply) (exited : Prop) : Effect → Prop
  | acquire : c.pc = .acquire → next = { c with pc := .writeIds } → Resumes c next r exited .acquire
  | release (res) :
    c.pc = .release res → next = { c with pc := .finished res } → Resumes c next r exited .release
  | spawn (pid) : c.pc = .popen → r = .spawned pid →
    next = { c with pc := .readLine, proc := some pid } → Resumes c next r exited .spawn
  | quiet : Keeps c next exited → Resumes c next r exited .none
  | terminate : Keeps c next exited → Resumes c next r exited .terminate
  | kill : Keeps c next exited → Resumes c next r exited .kill

theorem GenCall.resumes {s : Runtime T δ} {r : Reply} {eff : Effect} (hans : s.Answers c r)
    (h : c.resume codec r = some (next, eff)) :
    Resumes c next r (s.exitOf c ≠ none ∨ r = .expired) eff := by
  unfold GenCall.resume at h
  unfold Runtime.Answers at hans
  cases hpc : c.pc with
  | acquire =>
    rw [hpc] at h
    cases r <;> cases h
    exact .acquire hpc rfl
  | writeIds =>
    have hhold : c.pc.holding = true := by rw [hpc]; rfl
    have hearly : c.pc.early = true := by rw [hpc]; rfl
    rw [hpc] at h
    cases r <;> cases h
    · constructor
      exact ⟨hhold, rfl, rfl, fun _ => hearly, fun hs => by cases hs⟩
    · exact .quiet (Keeps.of_pc hhold rfl rfl rfl fun _ => Or.inl hearly)
  | popen =>
    have hhold : c.pc.holding = true := by rw [hpc]; rfl
    rw [hpc] at h
    cases r with
    | raised e =>
      cases h
      exact .quiet (GenCall.fail_keeps e hhold)
    | spawned pid =>
      cases h
      exact .spawn pid hpc rfl rfl
    | _ => cases h
  | readLine =>
    have hhold : c.pc.holding = true := by rw [hpc]; rfl
    rw [hpc] at h
    cases r with
    | raised e =>
      cases h
      exact .quiet (GenCall.fail_keeps e hhold)
    | line raw =>
      cases h
      exact .quiet (GenCall.consume_keeps raw hpc)
    | eof =>
      cases h
      exact .quiet (Keeps.of_pc hhold rfl rfl rfl fun hs => by cases hs)
    | _ => cases h
  | onDelta delta =>
    have hhold : c.pc.holding = true := by rw [hpc]; rfl
    rw [hpc] at h
    cases r with
    | raised e =>
      cases h
      exact .quiet (GenCall.fail_keeps e hhold)
    | ok =>
      cases h
      exact .quiet (Keeps.of_pc hhold rfl rfl rfl fun hs => by cases hs)
    | _ => cases h
  | drain =>
    have hhold : c.pc.holding = true := by rw [hpc]; rfl
    have hearly : c.pc.early = false := by rw [hpc]; rfl
    rw [hpc] at h
    cases r with
    | raised e =>
      cases h
      exact .quiet (GenCall.fail_keeps e hhold)
    | line raw =>
      cases h
      exact .quiet (Keeps.of_pc hhold rfl hhold hearly fun hs => Or.inr (Or.inl hs))
    | eof =>
      cases h
      exact .quiet (Keeps.of_pc hhold rfl rfl rfl fun hs => by cases hs)
    | _ => cases h
  | wait =>
    have hhold : c.pc.holding = true := by rw [hpc]; rfl
    rw [hpc] at h hans
    cases r with
    | raised e =>
      cases h
      exact .quiet (GenCall.fail_keeps e hhold)
    | exited rc =>
      cases h
      have hexit : s.exitOf c = some rc := hans
      exact .quiet (GenCall.afterWait_keeps rc hpc (Or.inl (by simp [hexit])))
    | _ => cases h
  | onTail tail =>
    have hhold : c.pc.holding = true := by rw [hpc]; rfl
    have hset : c.pc.settled = true := by rw [hpc]; rfl
    rw [hpc] at h
    cases r with
    | raised e =>
      cases h
      exact .quiet (GenCall.fail_keeps e hhold)
    | ok =>
      cases h
      exact .quiet (Keeps.of_pc hhold rfl rfl rfl fun _ => Or.inr (Or.inl hset))
    | _ => cases h
  | poll e =>
    have hhold : c.pc.holding = true := by rw [hpc]; rfl
    rw [hpc] at h hans
    cases r with
    | exited rc =>
      cases h
      have hexit : s.exitOf c = some rc := hans
      exact .quiet (Keeps.of_pc hhold rfl rfl rfl fun _ => Or.inr (Or.inr (Or.inl (by simp [hexit]))))
    | running =>
      cases h
      exact .quiet (Keeps.of_pc hhold rfl rfl rfl fun hs => by cases hs)
    | _ => cases h
  | terminate e =>
    have hhold : c.pc.holding = true := by rw [hpc]; rfl
    rw [hpc] at h
    cases r <;> cases h
    exact .terminate (Keeps.of_pc hhold rfl rfl rfl fun hs => by cases hs)
  | waitTimeout e =>
    have hhold : c.pc.holding = true := by rw [hpc]; rfl
    rw [hpc] at h hans
    cases r with
    | exited rc =>
      cases h
      have hexit : s.exitOf c = some rc := hans
      exact .quiet (Keeps.of_pc hhold rfl rfl rfl fun _ => Or.inr (Or.inr (Or.inl (by simp [hexit]))))
    | expired =>
      cases h
      exact .quiet (Keeps.of_pc hhold rfl rfl rfl fun _ => Or.inr (Or.inr (Or.inr rfl)))
    | _ => cases h
  | kill e =>
    have hhold : c.pc.holding = true := by rw [hpc]; rfl
    have hset : c.pc.settled = true := by rw [hpc]; rfl
    rw [hpc] at h
    cases r <;> cases h
    exact .kill (Keeps.of_pc hhold rfl rfl rfl fun _ => Or.inr (Or.inl hset))
  | unlink res =>
    have hhold : c.pc.holding = true := by rw [hpc]; rfl
    have hset : c.pc.settled = true := by rw [hpc]; rfl
    rw [hpc] at h
    cases r <;> cases h
    exact .quiet (Keeps.of_pc hhold rfl rfl rfl fun _ => Or.inr (Or.inl hset))
  | release res =>
    rw [hpc] at h
    cases r <;> cases h
    exact .release res hpc rfl
  | finished res =>
    rw [hpc] at h
    cases r <;> cases h

end Resume

section Invariant

variable {s : Runtime T δ} {t : T} {c next : GenCall δ} {codec : Codec δ} {cfg : Plan.PlanConfig}

omit [DecidableEq T] in
theorem runtimeInv_initial : RuntimeInv (Runtime.initial : Runtime T δ) := by
  constructor
  · intro t
    constructor
    · intro h
      cases h
    · rintro ⟨c, hc, _⟩
      cases hc
  · intro t c hc
    cases hc
  · intro t c pid hc
    cases hc
  · intro t c pid hc
    cases hc
  · rintro pid ⟨p, hp, _⟩
    cases hp

omit [DecidableEq T] in
theorem RuntimeInv.holder (hs : RuntimeInv s) {t' : T} {c' : GenCall δ} (hc : s.calls t = some c)
    (hhold : c.pc.holding = true) (hc' : s.calls t' = some c') (hhold' : c'.pc.holding = true) :
    t' = t := by
  have ht := (hs.locked t).mpr ⟨c, hc, hhold⟩
  have ht' := (hs.locked t').mpr ⟨c', hc', hhold'⟩
  rw [ht] at ht'
  exact (Option.some.inj ht').symm

omit [DecidableEq T] in
theorem not_alive_of_exitOf {pid : Nat} (hproc : c.proc = some pid) (hexit : s.exitOf c ≠ none) :
    ¬ s.Alive pid := by
  rintro ⟨p, hp, hrun⟩
  apply hexit
  rw [Runtime.exitOf, hproc, Option.bind_some, hp, Option.bind_some, hrun]

theorem calls_setCall {t' : T} {c' : GenCall δ} (h : (s.setCall t next).calls t' = some c') :
    (t' = t ∧ c' = next) ∨ (t' ≠ t ∧ s.calls t' = some c') := by
  by_cases ht : t' = t
  · subst ht
    simp only [Runtime.setCall, Function.update_self, Option.some.injEq] at h
    exact Or.inl ⟨rfl, h.symm⟩
  · simp only [Runtime.setCall, Function.update_of_ne ht] at h
    exact Or.inr ⟨ht, h⟩

theorem setCall_calls_self : (s.setCall t next).calls t = some next := Function.update_self ..

theorem setCall_calls_of_ne {t' : T} (h : t' ≠ t) : (s.setCall t next).calls t' = s.calls t' :=
  Function.update_of_ne h _ _

/-- What the next call of a thread, the lock and the children have to meet. -/
structure Replaces (s : Runtime T δ) (t : T) (next : GenCall δ) (lock : Option T)
    (children : List Child) : Prop where
  others : ∀ t', t' ≠ t → (lock = some t' ↔ s.lock = some t')
  lock : lock = some t ↔ next.pc.holding = true
  early : next.pc.early = true → next.proc = none
  started : ∀ pid, next.proc = some pid → pid < children.length
  length : s.children.length ≤ children.length
  running : ∀ pid, pid < s.children.length → Running children pid → s.Alive pid
  settled : ∀ pid, next.pc.settled = true → next.proc = some pid → ¬ Running children pid
  owned : ∀ pid, Running children pid → (next.pc.holding = true ∧ next.proc = some pid) ∨
    (s.Alive pid ∧ ∀ c, s.calls t = some c → c.pc.holding = true → c.proc ≠ some pid)

theorem RuntimeInv.replace (hs : RuntimeInv s) {lock : Option T} {children : List Child}
    (h : Replaces s t next lock children) :
    RuntimeInv ⟨lock, (s.setCall t next).calls, children⟩ := by
  constructor
  · intro t'
    by_cases ht : t' = t
    · subst ht
      constructor
      · intro hlock
        exact ⟨next, setCall_calls_self, h.lock.mp hlock⟩
      · rintro ⟨c', hc', hhold⟩
        rw [show (s.setCall t' next).calls t' = some next from setCall_calls_self] at hc'
        rw [← Option.some.inj hc'] at hhold
        exact h.lock.mpr hhold
    · refine (h.others t' ht).trans ((hs.locked t').trans ?_)
      simp only [setCall_calls_of_ne ht]
  · intro t' c' hc' hearly
    rcases calls_setCall hc' with ⟨-, rfl⟩ | ⟨-, hc'⟩
    · exact h.early hearly
    · exact hs.early t' c' hc' hearly
  · intro t' c' pid hc' hproc
    rcases calls_setCall hc' with ⟨-, rfl⟩ | ⟨-, hc'⟩
    · exact h.started pid hproc
    · exact Nat.lt_of_lt_of_le (hs.started t' c' pid hc' hproc) h.length
  · intro t' c' pid hc' hset hproc
    rcases calls_setCall hc' with ⟨-, rfl⟩ | ⟨-, hc'⟩
    · exact h.settled pid hset hproc
    · intro hrun
      exact hs.settled t' c' pid hc' hset hproc
        (h.running pid (hs.started t' c' pid hc' hproc) hrun)
  · intro pid hrun
    rcases h.owned pid hrun with ⟨hhold, hproc⟩ | ⟨halive, hother⟩
    · exact ⟨t, next, setCall_calls_self, hhold, hproc⟩
    · obtain ⟨t', c', hc', hhold, hproc⟩ := hs.owned pid halive
      have ht : t' ≠ t := by
        rintro rfl
        exact hother c' hc' hhold hproc
      exact ⟨t', c', (setCall_calls_of_ne ht).trans hc', hhold, hproc⟩

/-- An operation that leaves the lock alone, and which children run. -/
theorem RuntimeInv.keeps (hs : RuntimeInv s) (hc : s.calls t = some c)
    (hkeeps : Keeps c next (s.exitOf c ≠ none)) {children : List Child}
    (hlen : children.length = s.children.length)
    (hrun : ∀ pid, Running children pid ↔ s.Alive pid) :
    RuntimeInv ⟨s.lock, (s.setCall t next).calls, children⟩ := by
  have hproc : ∀ pid, next.proc = some pid → c.proc = some pid := by
    intro pid hpid
    rw [← hkeeps.proc, hpid]
  apply hs.replace
  constructor
  · intro t' _
    rfl
  · constructor
    · intro _
      exact hkeeps.holding'
    · intro _
      exact (hs.locked t).mpr ⟨c, hc, hkeeps.holding⟩
  · intro hearly
    rw [hkeeps.proc]
    exact hs.early t c hc (hkeeps.early hearly)
  · intro pid hpid
    rw [hlen]
    exact hs.started t c pid hc (hproc pid hpid)
  · exact hlen.ge
  · intro pid _
    exact (hrun pid).mp
  · intro pid hset hpid
    apply mt (hrun pid).mp
    have hpid := hproc pid hpid
    rcases hkeeps.settled hset with hearly | hset | hnone | hexit
    · have hnone := hs.early t c hc hearly
      rw [hpid] at hnone
      cases hnone
    · exact hs.settled t c pid hc hset hpid
    · rw [hpid] at hnone
      cases hnone
    · exact not_alive_of_exitOf hpid hexit
  · intro pid halive
    obtain ⟨t', c', hc', hhold, hpid⟩ := hs.owned pid ((hrun pid).mp halive)
    have ht := hs.holder hc hkeeps.holding hc' hhold
    rw [ht, hc] at hc'
    rw [← Option.some.inj hc'] at hpid
    exact Or.inl ⟨hkeeps.holding', hkeeps.proc.trans hpid⟩

theorem RuntimeInv.acquire (hs : RuntimeInv s) (hc : s.calls t = some c) (hpc : c.pc = .acquire)
    (hfree : s.lock = none) :
    RuntimeInv ⟨some t, (s.setCall t { c with pc := .writeIds }).calls, s.children⟩ := by
  have hnone : c.proc = none := hs.early t c hc (by rw [hpc]; rfl)
  apply hs.replace
  constructor
  · intro t' ht
    rw [hfree]
    constructor
    · intro h
      exact absurd (Option.some.inj h).symm ht
    · intro h
      cases h
  · exact ⟨fun _ => rfl, fun _ => rfl⟩
  · intro _
    exact hnone
  · intro pid hpid
    rw [hnone] at hpid
    cases hpid
  · exact Nat.le_refl _
  · intro pid _ hrun
    exact hrun
  · intro pid hset
    cases hset
  · intro pid halive
    obtain ⟨t', c', hc', hhold, _⟩ := hs.owned pid halive
    have hlock := (hs.locked t').mpr ⟨c', hc', hhold⟩
    rw [hfree] at hlock
    cases hlock

theorem RuntimeInv.release (hs : RuntimeInv s) (hc : s.calls t = some c)
    {res : Except Exc GenerationResult} (hpc : c.pc = .release res) :
    RuntimeInv ⟨none, (s.setCall t { c with pc := .finished res }).calls, s.children⟩ := by
  have hhold : c.pc.holding = true := by rw [hpc]; rfl
  have hset : c.pc.settled = true := by rw [hpc]; rfl
  have hlock := (hs.locked t).mpr ⟨c, hc, hhold⟩
  apply hs.replace
  constructor
  · intro t' ht
    rw [hlock]
    constructor
    · intro h
      cases h
    · intro h
      exact absurd (Option.some.inj h).symm ht
  · constructor
    · intro h
      cases h
    · intro h
      cases h
  · intro h
    cases h
  · intro pid hpid
    exact hs.started t c pid hc hpid
  · exact Nat.le_refl _
  · intro pid _ hrun
    exact hrun
  · intro pid _ hpid
    exact hs.settled t c pid hc hset hpid
  · intro pid halive
    refine Or.inr ⟨halive, ?_⟩
    intro c' hc' _ hpid
    rw [hc] at hc'
    rw [← Option.some.inj hc'] at hpid
    exact hs.settled t c pid hc hset hpid halive

theorem RuntimeInv.spawn (hs : RuntimeInv s) (hc : s.calls t = some c) (hpc : c.pc = .popen) :
    RuntimeInv ⟨s.lock, (s.setCall t { c with
        pc := .readLine, proc := some s.children.length }).calls,
      s.children ++ [⟨false, false, none⟩]⟩ := by
  have hhold : c.pc.holding = true := by rw [hpc]; rfl
  have hnone : c.proc = none := hs.early t c hc (by rw [hpc]; rfl)
  have hlock := (hs.locked t).mpr ⟨c, hc, hhold⟩
  apply hs.replace
  constructor
  · intro t' _
    rfl
  · exact ⟨fun _ => rfl, fun _ => hlock⟩
  · intro h
    cases h
  · intro pid hpid
    rw [← Option.some.inj hpid, List.length_append]
    exact Nat.lt_succ_self _
  · rw [List.length_append]
    exact Nat.le_add_right _ _
  · intro pid hlt hrun
    rcases (running_append s.children pid).mp hrun with hrun | rfl
    · exact hrun
    · exact absurd hlt (Nat.lt_irrefl _)
  · intro pid hset
    cases hset
  · intro pid hrun
    rcases (running_append s.children pid).mp hrun with halive | rfl
    · obtain ⟨t', c', hc', hhold', hpid⟩ := hs.owned pid halive
      have ht := hs.holder hc hhold hc' hhold'
      rw [ht, hc] at hc'
      rw [← Option.some.inj hc', hnone] at hpid
      cases hpid
    · exact Or.inl ⟨rfl, rfl⟩

theorem generateStart_eq {promptTokens : Nat} {maxTokens : Int} {nonneg streaming : Bool}
    (h : generateStart codec cfg promptTokens maxTokens nonneg streaming = .ok c) :
    c.pc = .acquire ∧ c.proc = none := by
  unfold generateStart at h
  split at h
  · cases h
  · split at h
    · cases h
    · cases h
      exact ⟨rfl, rfl⟩

omit [DecidableEq T] in
theorem holding_of_free (hfree : s.free t = true) (hc : s.calls t = some c) :
    c.pc.holding = false := by
  rw [Runtime.free, hc] at hfree
  simp only at hfree
  split at hfree
  · next h =>
    rw [h]
    rfl
  · cases hfree

theorem RuntimeInv.generate (hs : RuntimeInv s) (hfree : s.free t = true)
    (hpc : next.pc = .acquire) (hnone : next.proc = none) :
    RuntimeInv ⟨s.lock, (s.setCall t next).calls, s.children⟩ := by
  apply hs.replace
  constructor
  · intro t' _
    rfl
  · constructor
    · intro hlock
      obtain ⟨c, hc, hhold⟩ := (hs.locked t).mp hlock
      rw [holding_of_free hfree hc] at hhold
      cases hhold
    · intro hhold
      rw [hpc] at hhold
      cases hhold
  · intro _
    exact hnone
  · intro pid hpid
    rw [hnone] at hpid
    cases hpid
  · exact Nat.le_refl _
  · intro pid _ hrun
    exact hrun
  · intro pid hset
    rw [hpc] at hset
    cases hset
  · intro pid halive
    refine Or.inr ⟨halive, ?_⟩
    intro c hc hhold
    rw [holding_of_free hfree hc] at hhold
    cases hhold

omit [DecidableEq T] in
theorem RuntimeInv.exits (hs : RuntimeInv s) {p : Child} (pid : Nat) (rc : Int) :
    RuntimeInv { s with children := s.children.set pid { p with exit := some rc } } := by
  constructor
  · exact hs.locked
  · exact hs.early
  · intro t c q hc hq
    rw [show Runtime.children { s with children := s.children.set pid { p with exit := some rc } } =
      s.children.set pid { p with exit := some rc } from rfl, List.length_set]
    exact hs.started t c q hc hq
  · intro t c q hc hset hq hrun
    exact hs.settled t c q hc hset hq (running_of_set hrun)
  · intro q hrun
    exact hs.owned q (running_of_set hrun)

theorem RuntimeInv.ends (hs : RuntimeInv s) {r : Reply} {eff : Effect} (hc : s.calls t = some c)
    (hans : s.Answers c r) (htime : InTime s (.ends t r))
    (hres : c.resume codec r = some (next, eff)) : RuntimeInv (s.perform t next eff) := by
  have hexited : (s.exitOf c ≠ none ∨ r = .expired) → s.exitOf c ≠ none := by
    rintro (hexit | rfl)
    · exact hexit
    · exact htime c hc
  have hmono : Keeps c next (s.exitOf c ≠ none ∨ r = .expired) → Keeps c next (s.exitOf c ≠ none) := by
    intro h
    exact ⟨h.holding, h.holding', h.proc, h.early,
      fun hset => (h.settled hset).imp id (Or.imp id (Or.imp id hexited))⟩
  cases GenCall.resumes hans hres with
  | acquire hpc hnext =>
    rw [hnext]
    unfold Runtime.Answers at hans
    rw [hpc] at hans
    exact hs.acquire hc hpc (Option.isNone_iff_eq_none.mp hans)
  | release res hpc hnext =>
    rw [hnext]
    exact hs.release hc hpc
  | spawn pid hpc hr hnext =>
    unfold Runtime.Answers at hans
    rw [hpc, hr] at hans
    have hpid : pid = s.children.length := hans
    rw [hnext, hpid]
    exact hs.spawn hc hpc
  | quiet hkeeps => exact hs.keeps hc (hmono hkeeps) rfl fun _ => Iff.rfl
  | terminate hkeeps =>
    exact hs.keeps hc (hmono hkeeps) (length_signal Child.terminate s next.proc)
      (running_signal (f := Child.terminate) (fun _ => rfl) s next.proc)
  | kill hkeeps =>
    exact hs.keeps hc (hmono hkeeps) (length_signal Child.kill s next.proc)
      (running_signal (f := Child.kill) (fun _ => rfl) s next.proc)

theorem RuntimeInv.step (hs : RuntimeInv s) {e : ServerEvent T} {u : Runtime T δ}
    (htime : InTime s e) (h : s.step codec cfg e = some u) : RuntimeInv u := by
  cases e with
  | generate t promptTokens maxTokens nonneg streaming =>
    simp only [Runtime.step] at h
    by_cases hfree : s.free t = true
    · rw [if_pos hfree] at h
      cases hstart : generateStart codec cfg promptTokens maxTokens nonneg streaming with
      | error e =>
        rw [hstart] at h
        cases h
        exact hs
      | ok c =>
        rw [hstart] at h
        cases h
        exact hs.generate hfree (generateStart_eq hstart).1 (generateStart_eq hstart).2
    · rw [if_neg hfree] at h
      cases h
  | ends t r =>
    simp only [Runtime.step] at h
    cases hc : s.calls t with
    | none =>
      rw [hc] at h
      cases h
    | some c =>
      simp only [hc] at h
      by_cases hans : s.Answers c r
      · rw [if_pos hans] at h
        obtain ⟨next, hres, hu⟩ := Option.map_eq_some_iff.mp h
        rw [← hu]
        exact hs.ends hc hans htime hres
      · rw [if_neg hans] at h
        cases h
  | exits pid rc =>
    simp only [Runtime.step] at h
    cases hp : s.children[pid]? with
    | none =>
      rw [hp] at h
      cases h
    | some p =>
      simp only [hp] at h
      split at h
      · cases h
        exact hs.exits pid rc
      · cases h

omit [DecidableEq T] in
theorem RuntimeInv.oneChild (hs : RuntimeInv s) : s.OneChild := by
  have howner : ∀ p, s.Alive p → ∃ t c, s.lock = some t ∧ s.calls t = some c ∧ c.proc = some p := by
    intro p hp
    obtain ⟨t, c, hc, hhold, hproc⟩ := hs.owned p hp
    exact ⟨t, c, (hs.locked t).mpr ⟨c, hc, hhold⟩, hc, hproc⟩
  refine ⟨?_, howner⟩
  intro p q hp hq
  obtain ⟨t, c, hlock, hc, hproc⟩ := howner p hp
  obtain ⟨t', c', hlock', hc', hproc'⟩ := howner q hq
  rw [hlock] at hlock'
  rw [← Option.some.inj hlock', hc] at hc'
  rw [← Option.some.inj hc', hproc] at hproc'
  exact Option.some.inj hproc'

end Invariant

/-! ### Runs -/

section Runs

variable {s : Runtime T δ} {t : T} {c : GenCall δ} {pid : Nat}

theorem step_ends (codec : Codec δ) (cfg : Plan.PlanConfig) {r : Reply} {next : GenCall δ}
    {eff : Effect} (hc : s.calls t = some c) (hans : s.Answers c r)
    (hres : c.resume codec r = some (next, eff)) :
    Runtime.step codec cfg s (.ends t r) = some (s.perform t next eff) := by
  simp only [Runtime.step, hc, if_pos hans, hres, Option.map_some]

/-- After an expiry the call kills its child and lets go of the lock without a wait. -/
theorem reach_release_of_expired (codec : Codec δ) (cfg : Plan.PlanConfig) {e : Exc}
    (hc : s.calls t = some c) (hpc : c.pc = .waitTimeout e) (halive : s.Alive pid) :
    ∃ u : Runtime T δ, Reach (Runtime.step codec cfg) anyStep s u ∧ u.lock = none ∧ u.Alive pid := by
  let c₁ : GenCall δ := { c with pc := .kill e }
  let c₂ : GenCall δ := { c with pc := .unlink (.error e) }
  let c₃ : GenCall δ := { c with pc := .release (.error e) }
  let c₄ : GenCall δ := { c with pc := .finished (.error e) }
  let s₁ := s.perform t c₁ .none
  let s₂ := s₁.perform t c₂ .kill
  let s₃ := s₂.perform t c₃ .none
  have hkill : Runtime.step codec cfg s (.ends t .expired) = some s₁ := by
    apply step_ends codec cfg hc
    · unfold Runtime.Answers
      rw [hpc]
      trivial
    · unfold GenCall.resume
      rw [hpc]
  have hunlink : Runtime.step codec cfg s₁ (.ends t .ok) = some s₂ :=
    step_ends (c := c₁) codec cfg setCall_calls_self trivial rfl
  have hrelease : Runtime.step codec cfg s₂ (.ends t .ok) = some s₃ :=
    step_ends (c := c₂) codec cfg setCall_calls_self trivial rfl
  have hdone : Runtime.step codec cfg s₃ (.ends t .ok) = some (s₃.perform t c₄ .release) :=
    step_ends (c := c₃) codec cfg setCall_calls_self trivial rfl
  refine ⟨s₃.perform t c₄ .release, ?_, rfl, ?_⟩
  · have hrun : Reach (Runtime.step codec cfg) anyStep s s₁ := .tail (.refl s) trivial hkill
    have hrun := Reach.tail (Reach.tail hrun trivial hunlink) trivial hrelease
    exact .tail hrun trivial hdone
  · exact (running_signal (f := Child.kill) (fun _ => rfl) s₁ c.proc pid).mpr halive

/-- A `wait(timeout=3)` that expires on a running child is all that lets a second child in. -/
theorem oneChild_of_inTime (codec : Codec δ) (cfg : Plan.PlanConfig) :
    (∀ s : Runtime T δ, Reach (Runtime.step codec cfg) InTime Runtime.initial s → s.OneChild) ∧
      ∀ (s : Runtime T δ) (t : T) (c : GenCall δ) (e : Exc) (pid : Nat), s.calls t = some c →
        c.pc = .waitTimeout e → s.Alive pid →
        ∃ u : Runtime T δ, Reach (Runtime.step codec cfg) anyStep s u ∧ ¬ u.OneChild := by
  constructor
  · intro s hrun
    have hinv : RuntimeInv s :=
      Reach.invariant (fun _ _ _ hs htime hstep => hs.step htime hstep) runtimeInv_initial hrun
    exact hinv.oneChild
  · intro s t c e pid hc hpc halive
    obtain ⟨u, hrun, hlock, halive⟩ := reach_release_of_expired codec cfg hc hpc halive
    refine ⟨u, hrun, ?_⟩
    rintro ⟨-, howner⟩
    obtain ⟨t', c', hheld, -⟩ := howner pid halive
    rw [hlock] at hheld
    cases hheld

end Runs

/-! ### A client that leaves, and a child that does not -/

/-- The events up to a running child. -/
def startEvents (t : Bool) (pid : Nat) : List (ServerEvent Bool) :=
  [.generate t 4 128 true true, .ends t .ok, .ends t .ok, .ends t (.spawned pid)]

/-- The client has gone at the first token, and the child ignores `terminate`. -/
def leaveEvents : List (ServerEvent Bool) :=
  [.ends false (.line (text "TOKEN 5\n")), .ends false (.raised ⟨.brokenPipe, []⟩),
    .ends false .running, .ends false .ok, .ends false .expired, .ends false .ok, .ends false .ok,
    .ends false .ok]

/-- A child that runs while its caller waits for it with a timeout. -/
def waitingRuntime : Runtime Bool Unit where
  lock := some false
  calls t := if t then none else
    some ⟨.waitTimeout ⟨.brokenPipe, []⟩, some 0, (), [text "a"], 1, false, true⟩
  children := [⟨true, false, none⟩]

theorem oneChild_of_inTime_started :
    (∃ u : Runtime Bool Unit, u.Alive 0 ∧ u.OneChild) ∧
      ∃ u : Runtime Bool Unit,
        Reach (Runtime.step plainCodec plainPlan) anyStep waitingRuntime u ∧ ¬ u.OneChild := by
  constructor
  · have hchildren : (follow (Runtime.step plainCodec plainPlan) Runtime.initial
        (startEvents false 0)).map Runtime.children = some [⟨false, false, none⟩] := by
      decide +kernel
    obtain ⟨u, hu, hlist⟩ := Option.map_eq_some_iff.mp hchildren
    refine ⟨u, ⟨⟨false, false, none⟩, by rw [hlist]; rfl, rfl⟩, ?_⟩
    apply (oneChild_of_inTime plainCodec plainPlan).1 u
    apply reach_of_follow _ hu
    intro s e he
    simp only [startEvents, List.mem_cons, List.not_mem_nil, or_false] at he
    rcases he with rfl | rfl | rfl | rfl <;> trivial
  · exact (oneChild_of_inTime plainCodec plainPlan).2 waitingRuntime false _ _ 0 rfl rfl
      ⟨_, rfl, rfl⟩

theorem follow_two_children :
    ∃ u : Runtime Bool Unit, u.Alive 0 ∧ u.Alive 1 ∧
      follow (Runtime.step plainCodec plainPlan) Runtime.initial
        (startEvents false 0 ++ leaveEvents ++ startEvents true 1) = some u := by
  have hchildren : (follow (Runtime.step plainCodec plainPlan) Runtime.initial
      (startEvents false 0 ++ leaveEvents ++ startEvents true 1)).map Runtime.children =
        some [⟨true, true, none⟩, ⟨false, false, none⟩] := by
    decide +kernel
  obtain ⟨u, hu, hlist⟩ := Option.map_eq_some_iff.mp hchildren
  refine ⟨u, ?_, ?_, hu⟩
  · exact ⟨⟨true, true, none⟩, by rw [hlist]; rfl, rfl⟩
  · exact ⟨⟨false, false, none⟩, by rw [hlist]; rfl, rfl⟩

theorem not_oneChild_of_leave :
    ¬ ∀ u : Runtime Bool Unit,
      Reach (Runtime.step plainCodec plainPlan) anyStep Runtime.initial u → u.OneChild := by
  intro h
  obtain ⟨u, h0, h1, hrun⟩ := follow_two_children
  have heq := (h u (reach_of_follow (fun _ _ _ => trivial) hrun)).1 0 1 h0 h1
  cases heq

end Kvl
