import WebSshTool.Scaffold.AsyncSequence

/-!
# One loop

While `_running` is up there is one loop, in a call or behind its `await`, and
while it is down there is none. The frames below the innermost one wait, so
nothing gets between the loop's look at an empty queue and the reset of the
flag. A task that is in the queue with the flag down has just been pushed, and
its post is about to call `_run`.

The history of the tasks is then one of jobs that are served one at a time.
-/

namespace WebSshTool.Scaffold

open Sequencer (JobId Event)

variable {ν : Type*} {s s' : State ν} {l : Label ν}

/-! ## What a step can do -/

/-- A step, by the call it is a step of, with what it notes. -/
inductive Stepped (s : State ν) : State ν → List Event → Prop
  | enters (h : s.stack = []) : Stepped s { s with stack := [.code] } []
  | returns {f : Frame} {rest : List Frame} (h : s.stack = f :: rest)
      (hf : f = .code ∨ f = .posted ∨ f = .run .guard ∧ s.running = true ∨
        f = .clear ∧ s.fns = []) : Stepped s { s with stack := rest } []
  | posts {f : Frame} {rest : List Frame} (raw : Bool) (h : s.stack = f :: rest)
      (hf : f.calls = true) :
      Stepped s
        { s with
          stack := .post :: f :: rest
          fns := s.fns ++ [s.posted]
          posted := s.posted + 1
          raw := Function.update s.raw s.posted raw }
        [.posted s.posted]
  | clears {f : Frame} {rest : List Frame} (h : s.stack = f :: rest) (hf : f.calls = true) :
      Stepped s { s with stack := .clear :: f :: rest } []
  | runs {rest : List Frame} (h : s.stack = .post :: rest) :
      Stepped s { s with stack := .run .guard :: .posted :: rest } []
  | isFree {rest : List Frame} (h : s.stack = .run .guard :: rest) (hrunning : s.running = false) :
      Stepped s { s with stack := .run .set :: rest } []
  | sets {rest : List Frame} (h : s.stack = .run .set :: rest) :
      Stepped s { s with stack := .run .shift :: rest, running := true } []
  | isEmpty {rest : List Frame} (h : s.stack = .run .shift :: rest) (hfns : s.fns = []) :
      Stepped s { s with stack := .run .reset :: rest } []
  | starts {n : JobId} {fns : List JobId} {rest : List Frame}
      (h : s.stack = .run .shift :: rest) (hfns : s.fns = n :: fns) :
      Stepped s
        { s with
          stack := .run (.calling n) :: rest
          fns
          phase := Function.update s.phase n .running }
        [.started n]
  | suspends {n : JobId} {rest : List Frame} (h : s.stack = .run (.calling n) :: rest) :
      Stepped s { s with stack := .run (.await n) :: rest } []
  | throws {n : JobId} {rest : List Frame} (error : ν)
      (h : s.stack = .run (.calling n) :: rest) :
      Stepped s { s.settle n (.error error) with stack := .run (.await n) :: rest }
        [.finished n]
  | awaits {n : JobId} {rest : List Frame} (h : s.stack = .run (.await n) :: rest) :
      Stepped s { s with stack := rest, loops := s.loops ++ [n] } []
  | resets {rest : List Frame} (h : s.stack = .run .reset :: rest) :
      Stepped s { s with stack := rest, running := false } []
  | pops {n : JobId} {fns : List JobId} {rest : List Frame} (h : s.stack = .clear :: rest)
      (hfns : s.fns = fns ++ [n]) : Stepped s { s with fns } [.cleared n]
  | settles {n : JobId} (result : Except ν ν) (h : s.stack = [])
      (hphase : s.phase n = .running) : Stepped s (s.settle n result) [.finished n]
  | resumes {n : JobId} (h : s.stack = []) (hloops : n ∈ s.loops)
      (hphase : s.phase n = .settled) :
      Stepped s { s with stack := [.run .shift], loops := s.loops.erase n } []

theorem step_stepped {f : Frame} {rest : List Frame} (h : s.stack = f :: rest)
    (hf : f.calls = false) : Stepped s s.step (note s .step) := by
  cases f with
  | code => exact absurd hf (by simp [Frame.calls])
  | post =>
      have hstep := Stepped.runs h
      simpa [State.step, note, h] using hstep
  | posted =>
      have hstep := Stepped.returns h (.inr (.inl rfl))
      simpa [State.step, State.pop, note, h] using hstep
  | clear =>
      rcases List.eq_nil_or_concat s.fns with hfns | ⟨fns, n, hfns⟩
      · have hstep := Stepped.returns h (.inr (.inr (.inr ⟨rfl, hfns⟩)))
        simpa [State.step, State.pop, note, h, hfns] using hstep
      · rw [List.concat_eq_append] at hfns
        have hstep := Stepped.pops h hfns
        simpa [State.step, note, h, hfns] using hstep
  | run p =>
      cases p with
      | guard =>
          cases hrunning : s.running with
          | true =>
              have hstep := Stepped.returns h (.inr (.inr (.inl ⟨rfl, hrunning⟩)))
              simpa [State.step, State.pop, note, h, hrunning] using hstep
          | false =>
              have hstep := Stepped.isFree h hrunning
              simpa [State.step, State.goTo, note, h, hrunning] using hstep
      | set =>
          have hstep := Stepped.sets h
          simpa [State.step, State.goTo, note, h] using hstep
      | shift =>
          cases hfns : s.fns with
          | nil =>
              have hstep := Stepped.isEmpty h hfns
              simpa [State.step, State.goTo, note, h, hfns] using hstep
          | cons n fns =>
              have hstep := Stepped.starts h hfns
              simpa [State.step, State.goTo, note, h, hfns] using hstep
      | calling n => exact absurd hf (by simp [Frame.calls])
      | await n =>
          have hstep := Stepped.awaits h
          simpa [State.step, State.pop, note, h] using hstep
      | reset =>
          have hstep := Stepped.resets h
          simpa [State.step, State.pop, note, h] using hstep

theorem eq_cons_of_head? {f : Frame} (h : s.stack.head? = some f) :
    ∃ rest, s.stack = f :: rest := List.head?_eq_some_iff.mp h

theorem next_stepped (hen : enabled s l) : Stepped s (next s l) (note s l) := by
  cases l with
  | enter =>
      have hstep := Stepped.enters (s := s) hen
      simpa [next, State.push, note, show s.stack = [] from hen] using hstep
  | leave =>
      obtain ⟨rest, h⟩ := eq_cons_of_head? hen
      have hstep := Stepped.returns h (.inl rfl)
      simpa [next, State.pop, note, h] using hstep
  | post raw =>
      obtain ⟨f, hhead, hf⟩ := (Option.any_eq_true ..).mp hen
      obtain ⟨rest, h⟩ := eq_cons_of_head? hhead
      have hstep := Stepped.posts raw h hf
      simpa [next, State.push, note, h] using hstep
  | clear =>
      obtain ⟨f, hhead, hf⟩ := (Option.any_eq_true ..).mp hen
      obtain ⟨rest, h⟩ := eq_cons_of_head? hhead
      have hstep := Stepped.clears h hf
      simpa [next, State.push, note, h] using hstep
  | step =>
      obtain ⟨f, hhead, hf⟩ := (Option.any_eq_true ..).mp hen
      obtain ⟨rest, h⟩ := eq_cons_of_head? hhead
      exact step_stepped h (by simpa using hf)
  | suspend n =>
      obtain ⟨rest, h⟩ := eq_cons_of_head? hen
      have hstep := Stepped.suspends h
      simpa [next, State.goTo, note, h] using hstep
  | throw n error =>
      obtain ⟨rest, h⟩ := eq_cons_of_head? hen
      have hstep := Stepped.throws error h
      simpa [next, State.goTo, State.settle, note, h] using hstep
  | settle n result => exact .settles result hen.1 hen.2
  | resume n =>
      have hstep := Stepped.resumes hen.1 hen.2.1 hen.2.2
      simpa [next, State.push, note, hen.1] using hstep

/-! ## The loops -/

/-- A frame below the innermost one waits for a call to return. -/
def Frame.waits : Frame → Bool
  | .code | .posted | .run (.calling _) => true
  | .post | .clear | .run _ => false

/-- The frame of a loop, behind the guard and the flag. -/
def Frame.loop? : Frame → Option Point
  | .run .guard | .run .set | .code | .post | .posted | .clear => none
  | .run p => some p

/-- The loops that are active, in a call or behind their `await`. -/
def State.active (s : State ν) : List Point :=
  s.stack.filterMap Frame.loop? ++ s.loops.map .await

/-- No wrapper is between its call and its end. -/
def State.AtRest (s : State ν) : Prop := ∀ n, s.phase n ≠ .running

/-- What the loop is at says which task runs. -/
def State.At (s : State ν) : Point → Prop
  | .calling n => ∀ m, s.phase m = .running ↔ m = n
  | .await n => s.phase n ≠ .uncalled ∧ ∀ m, s.phase m = .running → m = n
  | .shift | .reset | .guard | .set => s.AtRest

/-- What holds where this call is the innermost. -/
def State.HeadOk (s : State ν) : Option Frame → Prop
  | some .post | some (.run .guard) => True
  | some (.run .set) => s.running = false
  | some (.run .reset) => s.fns = []
  | _ => s.running = true ∨ s.fns = []

structure Inv (s : State ν) : Prop where
  waits : ∀ f ∈ s.stack.tail, f.waits = true
  head : s.HeadOk s.stack.head?
  down : s.running = false → s.active = [] ∧ s.AtRest
  up : s.running = true → ∃ p, s.active = [p] ∧ s.At p

theorem init_inv : Inv (init : State ν) where
  waits f hf := absurd hf (by simp [init])
  head := .inr rfl
  down _ := ⟨rfl, fun _ => by simp [init]⟩
  up h := absurd h (by simp [init])

theorem headOk_of_waits {f : Frame} (hf : f.waits = true) :
    s.HeadOk (some f) ↔ s.running = true ∨ s.fns = [] := by
  cases f with
  | code | posted => exact Iff.rfl
  | post | clear => exact absurd hf (by simp [Frame.waits])
  | run p =>
      cases p with
      | calling n => exact Iff.rfl
      | guard | set | shift | await | reset => exact absurd hf (by simp [Frame.waits])

/-- A call that returns leaves one that waits for it, or none. -/
theorem headOk_tail {rest : List Frame} (hwaits : ∀ f ∈ rest, f.waits = true)
    (h : s.running = true ∨ s.fns = []) : s.HeadOk rest.head? := by
  cases rest with
  | nil => exact h
  | cons f rest => exact (headOk_of_waits (hwaits f List.mem_cons_self)).mpr h

/-- Only the innermost call of a loop does not wait. -/
theorem active_of_head (hi : Inv s) {p : Point} {rest : List Frame}
    (h : s.stack = .run p :: rest) (hp : (Frame.run p).loop? = some p) :
    s.running = true ∧ s.active = [p] ∧ rest.filterMap Frame.loop? = [] ∧ s.loops = [] ∧
      s.At p := by
  have hactive : s.active = p :: (rest.filterMap Frame.loop? ++ s.loops.map .await) := by
    rw [State.active, h, List.filterMap_cons_some hp, List.cons_append]
  cases hrunning : s.running with
  | false => exact absurd (hactive.symm.trans (hi.down hrunning).1) (by simp)
  | true =>
      obtain ⟨q, hone, hat⟩ := hi.up hrunning
      obtain ⟨rfl, hnone⟩ := List.cons.inj (hactive.symm.trans hone)
      obtain ⟨hrest, hloops⟩ := List.append_eq_nil_iff.mp hnone
      exact ⟨rfl, hone, hrest, List.map_eq_nil_iff.mp hloops, hat⟩

/-- A step that is none of a loop. -/
theorem Inv.frame (hi : Inv s) (hwaits : ∀ f ∈ s'.stack.tail, f.waits = true)
    (hhead : s'.HeadOk s'.stack.head?) (hrunning : s'.running = s.running)
    (hcalls : s'.stack.filterMap Frame.loop? = s.stack.filterMap Frame.loop?)
    (hloops : s'.loops = s.loops) (hphase : s'.phase = s.phase) : Inv s' := by
  have hactive : s'.active = s.active := by rw [State.active, State.active, hcalls, hloops]
  exact {
    waits := hwaits
    head := hhead
    down := by
      intro h
      obtain ⟨hnone, hrest⟩ := hi.down (hrunning ▸ h)
      refine ⟨hactive.trans hnone, fun n => ?_⟩
      rw [hphase]
      exact hrest n
    up := by
      intro h
      obtain ⟨p, hone, hat⟩ := hi.up (hrunning ▸ h)
      refine ⟨p, hactive.trans hone, ?_⟩
      cases p <;> simpa only [State.At, State.AtRest, hphase] using hat }

/-- A step of the one loop, which is then at `p`. -/
theorem Inv.of_loop {p : Point} (hwaits : ∀ f ∈ s'.stack.tail, f.waits = true)
    (hhead : s'.HeadOk s'.stack.head?) (hrunning : s'.running = true)
    (hactive : s'.active = [p]) (hat : s'.At p) : Inv s' where
  waits := hwaits
  head := hhead
  down h := absurd (hrunning.symm.trans h) (by simp)
  up _ := ⟨p, hactive, hat⟩

/-- The innermost call of the loop goes from `p` to `q`. -/
theorem Inv.advances (hi : Inv s) {p q : Point} {rest : List Frame} (h : s.stack = .run p :: rest)
    (hp : (Frame.run p).loop? = some p) (hq : (Frame.run q).loop? = some q)
    (hstack : s'.stack = .run q :: rest) (hloops : s'.loops = s.loops)
    (hup : s'.running = s.running) (hhead : s.running = true → s'.HeadOk (some (.run q)))
    (hat : s.At p → s'.At q) : Inv s' := by
  have hwaits := hi.waits
  rw [h] at hwaits
  obtain ⟨hrunning, -, hrest, hnone, hatp⟩ := active_of_head hi h hp
  refine .of_loop (p := q) ?_ ?_ (hup.trans hrunning) ?_ (hat hatp)
  · rw [hstack]
    exact hwaits
  · rw [hstack]
    exact hhead hrunning
  · rw [State.active, hstack, hloops, hnone, List.filterMap_cons_some hq, hrest]
    rfl

theorem waits_of_calls {f : Frame} (hf : f.calls = true) : f.waits = true := by
  cases f with
  | code => rfl
  | post | posted | clear => exact absurd hf (by simp [Frame.calls])
  | run p =>
      cases p with
      | calling n => rfl
      | guard | set | shift | await | reset => exact absurd hf (by simp [Frame.calls])

theorem Inv.stepped {e : List Event} (hi : Inv s) (hstep : Stepped s s' e) : Inv s' := by
  have hwaits := hi.waits
  have hhead := hi.head
  cases hstep with
  | enters h =>
      rw [h] at hhead
      exact hi.frame (by simp) hhead rfl (by rw [h]; rfl) rfl rfl
  | @returns f rest h hf =>
      rw [h] at hwaits hhead
      have hnone : f.loop? = none := by rcases hf with rfl | rfl | ⟨rfl, -⟩ | ⟨rfl, -⟩ <;> rfl
      have hok : s.running = true ∨ s.fns = [] := by
        rcases hf with rfl | rfl | ⟨-, hrunning⟩ | ⟨-, hfns⟩
        · exact hhead
        · exact hhead
        · exact .inl hrunning
        · exact .inr hfns
      exact hi.frame (fun f hf => hwaits f (List.mem_of_mem_tail hf)) (headOk_tail hwaits hok) rfl
        (by rw [h, List.filterMap_cons_none hnone]) rfl rfl
  | @posts f rest raw h hf =>
      rw [h] at hwaits
      refine hi.frame ?_ trivial rfl (by rw [h]; rfl) rfl rfl
      exact List.forall_mem_cons.mpr ⟨waits_of_calls hf, hwaits⟩
  | @clears f rest h hf =>
      rw [h] at hwaits hhead
      refine hi.frame ?_ ?_ rfl (by rw [h]; rfl) rfl rfl
      · exact List.forall_mem_cons.mpr ⟨waits_of_calls hf, hwaits⟩
      · exact (headOk_of_waits (waits_of_calls hf)).mp hhead
  | runs h =>
      rw [h] at hwaits
      refine hi.frame ?_ trivial rfl (by rw [h]; rfl) rfl rfl
      exact List.forall_mem_cons.mpr ⟨rfl, hwaits⟩
  | isFree h hrunning =>
      rw [h] at hwaits
      exact hi.frame hwaits hrunning rfl (by rw [h]; rfl) rfl rfl
  | sets h =>
      rw [h] at hwaits hhead
      obtain ⟨hnone, hrest⟩ := hi.down hhead
      refine .of_loop (p := .shift) hwaits (.inl rfl) rfl ?_ hrest
      rw [State.active, h] at hnone
      exact congrArg (.shift :: ·) hnone
  | isEmpty h hfns => exact hi.advances h rfl rfl rfl rfl rfl (fun _ => hfns) id
  | @starts n fns rest h hfns =>
      refine hi.advances h rfl rfl rfl rfl rfl .inl fun hat m => ?_
      rcases eq_or_ne m n with rfl | hm
      · simp
      · simpa [hm] using hat m
  | @suspends n rest h =>
      refine hi.advances h rfl rfl rfl rfl rfl .inl fun hat => ⟨?_, fun m => (hat m).mp⟩
      rw [(hat n).mpr rfl]
      simp
  | @throws n rest error h =>
      refine hi.advances h rfl rfl rfl rfl rfl .inl fun hat => ⟨?_, fun m hm => ?_⟩
      · simp [State.settle]
      · rcases eq_or_ne m n with rfl | hne
        · rfl
        · exact (hat m).mp (by simpa [State.settle, hne] using hm)
  | @awaits n rest h =>
      rw [h] at hwaits
      obtain ⟨hrunning, -, hrest, hloops, hat⟩ := active_of_head hi h rfl
      exact .of_loop (p := .await n) (fun f hf => hwaits f (List.mem_of_mem_tail hf))
        (headOk_tail hwaits (.inl hrunning)) hrunning
        (by simp [State.active, hrest, hloops]) hat
  | resets h =>
      rw [h] at hwaits hhead
      obtain ⟨-, -, hrest, hloops, hat⟩ := active_of_head hi h rfl
      exact {
        waits := fun f hf => hwaits f (List.mem_of_mem_tail hf)
        head := headOk_tail hwaits (.inr hhead)
        down := fun _ => ⟨by simp [State.active, hrest, hloops], hat⟩
        up := fun hup => absurd hup (by simp) }
  | pops h hfns =>
      rw [h] at hhead
      refine hi.frame hwaits ?_ rfl rfl rfl rfl
      rw [h]
      exact .inl (hhead.resolve_right (by simp [hfns]))
  | @settles n result h hphase =>
      cases hrunning : s.running with
      | false => exact absurd hphase ((hi.down hrunning).2 n)
      | true =>
          obtain ⟨p, hone, hat⟩ := hi.up hrunning
          have hloops : s.loops.map .await = [p] := by simpa [State.active, h] using hone
          obtain ⟨k, -, rfl⟩ := List.map_eq_singleton_iff.mp hloops
          have hok : (s.settle n result).HeadOk s.stack.head? := by
            rw [h]
            exact .inl hrunning
          refine .of_loop (p := .await k) hwaits hok hrunning hone ⟨?_, fun m hm => ?_⟩
          · rcases eq_or_ne k n with rfl | hk
            · simp [State.settle]
            · simpa [State.settle, hk] using hat.1
          · rcases eq_or_ne m n with rfl | hm'
            · exact hat.2 m hphase
            · exact hat.2 m (by simpa [State.settle, hm'] using hm)
  | @resumes n h hloops hphase =>
      cases hrunning : s.running with
      | false =>
          have hnone : s.loops = [] := by simpa [State.active, h] using (hi.down hrunning).1
          exact absurd hloops (by simp [hnone])
      | true =>
          obtain ⟨p, hone, hat⟩ := hi.up hrunning
          have hmap : s.loops.map .await = [p] := by simpa [State.active, h] using hone
          obtain ⟨k, hk, rfl⟩ := List.map_eq_singleton_iff.mp hmap
          obtain rfl : n = k := by simpa [hk] using hloops
          refine .of_loop (p := .shift) (by simp) (.inl rfl) rfl
            (by simp [State.active, Frame.loop?, hk]) fun m hm => ?_
          rw [hat.2 m hm, hphase] at hm
          exact absurd hm (by simp)

theorem inv_of_reachable (hs : machine.Reachable s) : Inv s :=
  hs.invariant init_inv fun _ _ _ hi hen _ => hi.stepped (next_stepped hen)

/-! ## The jobs -/

/-- The tasks as jobs that are served one at a time. -/
structure Same (s : State ν) (a : Sequencer.State) : Prop where
  waiting : a.waiting = s.fns
  posted : a.posted = s.posted
  serving : ∀ n, a.serving = some n ↔ s.phase n = .running

theorem init_same : Same (init : State ν) Sequencer.init where
  waiting := rfl
  posted := rfl
  serving n := iff_of_false (by simp [Sequencer.init]) (by simp [init])

/-- The end of a wrapper ends its job. -/
theorem Same.settle {a : Sequencer.State} {n : JobId} (h : Same s a) (s' : State ν)
    (hphase : s.phase n = .running) (hfns : s'.fns = s.fns) (hposted : s'.posted = s.posted)
    (hnext : s'.phase = Function.update s.phase n .settled) :
    Sequencer.enabled a (.finished n) ∧ Same s' (Sequencer.next a (.finished n)) := by
  refine ⟨(h.serving n).mpr hphase, h.waiting.trans hfns.symm, h.posted.trans hposted.symm,
    fun m => iff_of_false (by simp [Sequencer.next]) ?_⟩
  rw [hnext]
  rcases eq_or_ne m n with rfl | hm
  · simp
  · rw [Function.update_of_ne hm]
    intro hrunning
    have hserving := (h.serving m).mpr hrunning
    rw [(h.serving n).mpr hphase] at hserving
    exact hm (Option.some.inj hserving).symm

/-- What a step notes is a step of the jobs. -/
theorem Same.stepped {e : List Event} {a : Sequencer.State} (hi : Inv s) (h : Same s a)
    (hstep : Stepped s s' e) :
    Sequencer.machine.Path (fun _ _ => True) a e ∧ Same s' (e.foldl Sequencer.next a) := by
  cases hstep with
  | enters | returns | clears | runs | isFree | sets | isEmpty | suspends | awaits | resets
  | resumes => exact ⟨trivial, h.waiting, h.posted, h.serving⟩
  | posts raw =>
      refine ⟨⟨⟨h.posted.symm, trivial⟩, trivial⟩, ?_, ?_, h.serving⟩
      · exact congrArg (· ++ [s.posted]) h.waiting
      · exact congrArg (· + 1) h.posted
  | @starts n fns rest hstack hfns =>
      obtain ⟨-, -, -, -, hat⟩ := active_of_head hi hstack rfl
      have hnone : a.serving = none := by
        rw [Option.eq_none_iff_forall_ne_some]
        exact fun m hm => hat m ((h.serving m).mp hm)
      have hwaiting : a.waiting = n :: fns := h.waiting.trans hfns
      refine ⟨⟨⟨⟨by simp [hwaiting], hnone⟩, trivial⟩, trivial⟩, ?_, h.posted, fun m => ?_⟩
      · exact congrArg List.tail hwaiting
      · rcases eq_or_ne m n with rfl | hm
        · simp [Sequencer.next]
        · simpa [Sequencer.next, hm, hm.symm] using hat m
  | @throws n rest error hstack =>
      obtain ⟨-, -, -, -, hat⟩ := active_of_head hi hstack rfl
      obtain ⟨hen, hsame⟩ := h.settle { s.settle n (.error error) with
        stack := .run (.await n) :: rest } ((hat n).mpr rfl) rfl rfl rfl
      exact ⟨⟨⟨hen, trivial⟩, trivial⟩, hsame⟩
  | @settles n result _ hphase =>
      obtain ⟨hen, hsame⟩ := h.settle (s.settle n result) hphase rfl rfl rfl
      exact ⟨⟨⟨hen, trivial⟩, trivial⟩, hsame⟩
  | @pops n fns rest hstack hfns =>
      have hwaiting : a.waiting = fns ++ [n] := h.waiting.trans hfns
      refine ⟨⟨⟨by simp [Sequencer.machine, Sequencer.enabled, hwaiting], trivial⟩, trivial⟩, ?_,
        h.posted, h.serving⟩
      simp [Sequencer.next, hwaiting]

/-- A run together with what it notes. -/
def recorded : Machine (State ν × List Event) (Label ν) := machine.record note

theorem run_of_reachable {p : State ν × List Event} (hp : recorded.Reachable p) :
    Inv p.1 ∧ Sequencer.Run p.2 ∧ Same p.1 (Sequencer.stateOf p.2) := by
  refine Machine.Reaches.invariant (M := recorded) (I := fun p => Inv p.1 ∧ Sequencer.Run p.2 ∧
    Same p.1 (Sequencer.stateOf p.2)) ⟨init_inv, trivial, init_same⟩ ?_ hp
  rintro p l - ⟨hi, hrun, hsame⟩ hen -
  have hstep := next_stepped hen
  obtain ⟨hpath, hnext⟩ := hsame.stepped hi hstep
  refine ⟨hi.stepped hstep, Machine.path_append.mpr ⟨hrun, hpath⟩, ?_⟩
  change Same _ (List.foldl _ _ (p.2 ++ note p.1 l))
  rw [List.foldl_append]
  exact hnext

/-! ## Tasks in sequence -/

/-- The task has been started, and its wrapper has not ended. -/
def Running (h : List Event) (n : JobId) : Prop := .started n ∈ h ∧ .finished n ∉ h

theorem running_iff {p : State ν × List Event} (hp : recorded.Reachable p) (n : JobId) :
    Running p.2 n ↔ p.1.phase n = .running := by
  obtain ⟨-, hrun, hsame⟩ := run_of_reachable hp
  exact ((Sequencer.inv_of_run hrun).serving n).symm.trans (hsame.serving n)

structure InSequence (s : State ν) (h : List Event) : Prop where
  running : ∀ n, Running h n ↔ s.phase n = .running
  oneAtATime : ∀ n m, Running h n → Running h m → n = m
  inOrder : (Sequencer.startedIn h).Sublist (Sequencer.postedIn h)
  once : (Sequencer.startedIn h).Nodup
  /-- With no call in progress a task in the queue has a loop to come to it. -/
  notStranded : s.stack = [] → s.fns ≠ [] →
    s.running = true ∧ ∃ n, s.active = [.await n] ∧ s.phase n ≠ .uncalled
  /-- Nothing that has been posted is lost. -/
  kept : ∀ a b n, h = a ++ .posted n :: b →
    .started n ∈ b ∨ .cleared n ∈ b ∨ n ∈ s.fns
  /-- A task is passed over only if it has been cleared. -/
  skipped : ∀ a b c n m, h = a ++ .posted n :: b ++ .started m :: c → .posted m ∈ b →
    .started n ∈ b ∨ .cleared n ∈ b

/-- With no call in progress the one loop is behind its `await`. -/
theorem Inv.loop (hi : Inv s) (hstack : s.stack = []) (hfns : s.fns ≠ []) :
    s.running = true ∧ ∃ n, s.loops = [n] ∧ s.phase n ≠ .uncalled := by
  have hhead := hi.head
  rw [hstack] at hhead
  have hrunning : s.running = true := Or.resolve_right hhead hfns
  obtain ⟨p, hone, hat⟩ := hi.up hrunning
  have hmap : s.loops.map .await = [p] := by simpa [State.active, hstack] using hone
  obtain ⟨n, hloops, rfl⟩ := List.map_eq_singleton_iff.mp hmap
  exact ⟨hrunning, n, hloops, hat.1⟩

theorem tasks_inSequence {p : State ν × List Event} (hp : recorded.Reachable p) :
    InSequence p.1 p.2 := by
  obtain ⟨hi, hrun, hsame⟩ := run_of_reachable hp
  exact {
    running := running_iff hp
    oneAtATime := fun n m hn hm => hrun.oneAtATime hn.1 hn.2 hm.1 hm.2
    inOrder := hrun.inOrder
    once := hrun.posted_nodup.sublist hrun.inOrder
    notStranded := by
      intro hstack hfns
      obtain ⟨hrunning, n, hloops, hcalled⟩ := hi.loop hstack hfns
      exact ⟨hrunning, n, by simp [State.active, hstack, hloops], hcalled⟩
    kept := by
      intro a b n heq
      rw [← hsame.waiting]
      exact hrun.kept heq
    skipped := fun a b c n m heq hm => hrun.skipped heq hm }

instance (p : State ν × List Event) (l : Label ν) : Decidable (recorded.enabled p l) :=
  inferInstanceAs (Decidable (enabled p.1 l))

/-- The first task posts one, clears it and posts another before its `await`. It
rejects, and the loop goes on with the one that is left, which throws. -/
def rejected : List (Label Nat) :=
  [.enter, .post false, .step, .step, .step, .step,
    .post true, .step, .step, .step, .clear, .step, .step, .post false, .step, .step, .step,
    .suspend 0, .step, .step, .leave, .settle 0 (.error 7), .resume 0, .step,
    .throw 2 5, .step, .resume 2, .step, .step]

theorem rejected_inSequence :
    (rejected.foldl recorded.next recorded.init).2 =
        [.posted 0, .started 0, .posted 1, .cleared 1, .posted 2, .finished 0, .started 2,
          .finished 2] ∧
      InSequence (rejected.foldl recorded.next recorded.init).1
        (rejected.foldl recorded.next recorded.init).2 :=
  ⟨rfl, tasks_inSequence (Machine.reaches_of_path (M := recorded) (by decide +kernel))⟩

/-- Where the task that the loop waits for has ended, the loop goes on, and the
task at the front of the queue is started. -/
theorem front_starts {p : State ν × List Event} (hp : recorded.Reachable p)
    (hstack : p.1.stack = []) {m : JobId} {fns : List JobId} (hfns : p.1.fns = m :: fns) :
    ∃ n, p.1.loops = [n] ∧ (p.1.phase n = .settled →
      recorded.Path (fun _ _ => True) p [.resume n, .step] ∧
        ([.resume n, .step].foldl recorded.next p).2 = p.2 ++ [.started m]) := by
  obtain ⟨hi, -, -⟩ := run_of_reachable hp
  obtain ⟨-, n, hloops, -⟩ := hi.loop hstack (by simp [hfns])
  refine ⟨n, hloops, fun hsettled => ⟨⟨⟨?_, trivial⟩, ⟨rfl, trivial⟩, trivial⟩, ?_⟩⟩
  · exact ⟨hstack, by simp [hloops], hsettled⟩
  · simp [recorded, Machine.record, machine, next, note, State.push, hfns]

/-! ## The promises of `post` -/

/-- The promise of a task is settled at the end of its wrapper. -/
structure Promised (s : State ν) (h : List Event) : Prop where
  called : ∀ n, s.phase n ≠ .uncalled ↔ .started n ∈ h
  settled : ∀ n, (s.promise n).isSome = true ↔ s.phase n = .settled ∧ s.raw n = false

theorem init_promised : Promised (init : State ν) [] where
  called n := iff_of_false (by simp [init]) (by simp)
  settled n := iff_of_false (by simp [init]) (by simp [init])

theorem Promised.settle {h : List Event} {n : JobId} (hp : Promised s h)
    (hphase : s.phase n = .running) (result : Except ν ν) :
    Promised (s.settle n result) (h ++ [.finished n]) where
  called m := by
    have hcalled := hp.called m
    rcases eq_or_ne m n with rfl | hm
    · simpa [State.settle, hphase] using hcalled
    · simpa [State.settle, hm] using hcalled
  settled m := by
    have hsettled := hp.settled m
    rcases eq_or_ne m n with rfl | hm
    · cases hraw : s.raw m with
      | true => simpa [State.settle, hraw, hphase] using hsettled
      | false => simp [State.settle, hraw]
    · cases hraw : s.raw n with
      | true => simpa [State.settle, hraw, hm] using hsettled
      | false => simpa [State.settle, hraw, hm] using hsettled

theorem Promised.stepped {h e : List Event} (hrun : Sequencer.Run h)
    (hsame : Same s (Sequencer.stateOf h)) (hi : Inv s) (hp : Promised s h)
    (hstep : Stepped s s' e) : Promised s' (h ++ e) := by
  -- A task that waits has not been called.
  have huncalled : ∀ n, .started n ∉ h → s.phase n = .uncalled := fun n hn =>
    not_not.mp (mt (hp.called n).mp hn)
  cases hstep with
  | enters | returns | clears | runs | isFree | sets | isEmpty | suspends | awaits | resets
  | resumes =>
      rw [List.append_nil]
      exact ⟨hp.called, hp.settled⟩
  | posts raw =>
      have hnew : s.phase s.posted = .uncalled := by
        refine huncalled _ fun hstarted => ?_
        have hlt := (Sequencer.inv_of_run hrun).lt_posted (n := s.posted)
          (by simp [Sequencer.mem_startedIn, hstarted])
        exact absurd hlt (by rw [hsame.posted]; exact Nat.lt_irrefl _)
      refine ⟨fun n => by simpa using hp.called n, fun n => ?_⟩
      rcases eq_or_ne n s.posted with rfl | hn
      · simpa [hnew] using hp.settled s.posted
      · simpa [hn] using hp.settled n
  | @starts n fns rest hstack hfns =>
      have hnot := (Sequencer.inv_of_run hrun).not_started (n := n) (by simp [hsame.waiting, hfns])
      refine ⟨fun m => ?_, fun m => ?_⟩
      · rcases eq_or_ne m n with rfl | hm
        · simp
        · simpa [hm] using hp.called m
      · rcases eq_or_ne m n with rfl | hm
        · simpa [huncalled m hnot] using hp.settled m
        · simpa [hm] using hp.settled m
  | @throws n rest error hstack =>
      obtain ⟨-, -, -, -, hat⟩ := active_of_head hi hstack rfl
      obtain ⟨hcalled, hsettled⟩ := hp.settle ((hat n).mpr rfl) (.error error)
      exact ⟨hcalled, hsettled⟩
  | settles result hstack hphase => exact hp.settle hphase result
  | pops hstack hfns => exact ⟨fun n => by simpa using hp.called n, hp.settled⟩

/-- The promise of `post` is settled when its task has finished. `postRaw` has none. -/
theorem promise_settled {p : State ν × List Event} (hp : recorded.Reachable p) (n : JobId) :
    (p.1.promise n).isSome = true ↔ .finished n ∈ p.2 ∧ p.1.raw n = false := by
  have hpromised : Promised p.1 p.2 := by
    refine Machine.Reaches.invariant (M := recorded) (I := fun p => Promised p.1 p.2)
      init_promised ?_ hp
    intro p l hreach h hen _
    obtain ⟨hi, hrun, hsame⟩ := run_of_reachable hreach
    exact h.stepped hrun hsame hi (next_stepped hen)
  obtain ⟨-, hrun, -⟩ := run_of_reachable hp
  have hcalled := hpromised.called n
  have hrunning := running_iff hp n
  rw [hpromised.settled n, and_congr_left_iff]
  intro _
  constructor
  · intro hsettled
    by_contra hnot
    have hphase := hrunning.mp ⟨hcalled.mp (by simp [hsettled]), hnot⟩
    exact absurd (hsettled.symm.trans hphase) (by simp)
  · intro hfinished
    have hstarted := (Sequencer.inv_of_run hrun).finished n hfinished
    cases hphase : p.1.phase n with
    | uncalled => exact absurd hphase (hcalled.mpr hstarted)
    | running => exact absurd hfinished (hrunning.mpr hphase).2
    | settled => rfl

end WebSshTool.Scaffold
