import BytecodeDebugger.Proofs.CallStack
import BytecodeDebugger.Proofs.CommandStops
import BytecodeDebugger.Proofs.DebuggerTraps

/-!
# The commands of a stepper up to a trap

A stepping plan is over at a noted halt on a patched trap and by its own rule. A halt on a trap of
the program is not noted, since nothing was displaced there, so a plan asks for another step on the
same trap. If the location has a breakpoint, the first of these steps arms it, and the second one
runs into the patch and is noted. If it has none, the plan never ends.
-/

namespace BytecodeDebugger

/-- No command stops by its own rule where it started. -/
theorem Command.not_stopsAt_self {command : Command} (hcommand : command ≠ .single)
    (program : Program) (m : Machine) : ¬command.StopsAt program m m := by
  have hline : ¬m.OnNewLine program m := by
    rintro ⟨span, hspan, hlater⟩
    exact absurd (hlater span hspan).2 (Nat.lt_irrefl _)
  match command with
  | .into => simp [StopsAt, hline]
  | .over => simp [StopsAt, hline]
  | .out => simp [StopsAt]
  | .proceed => simp [StopsAt]
  | .single => exact absurd rfl hcommand

/-- At a trap at its start a command has an end only if the trap is an injected one. -/
theorem Machine.endsBy_zero_iff {command : Command} {program : Program}
    {traps marks : Location → Bool} {m : Machine} (hcommand : command ≠ .single) :
    m.EndsBy program traps marks (fun mid => command.StopsAt program m mid) 0 ↔
      m.location?.any traps = true := by
  refine Iff.trans (or_iff_left ?_) runsInto_zero_iff
  rintro ⟨j, mid, -, hj, hmid, hstop⟩
  obtain rfl := Nat.le_zero.mp hj
  cases hmid
  exact Command.not_stopsAt_self hcommand program m hstop

namespace Stepper

variable {s t : Stepper} {traps marks : Location → Bool} {program : Program}
  {start m next : Machine} {plan plan' : Plan} {k n : Nat}

/-! ## One request -/

/-- One request of a plan, which goes on as another one, halts a stepper again. -/
structure StepsOn (program : Program) (m next : Machine) (plan : Plan) (s t : Stepper) : Prop where
  paused : t.vm.PausedIn program next
  planned : t.plan = some plan
  marked : t.debugger.isBreakpoint = s.debugger.isBreakpoint
  noted : t.onBreakpoint = next.location?.any s.vm.isPatched
  isPatched : ∀ place, t.vm.isPatched place =
    ((s.vm.isPatched place && decide (next.location? ≠ some place)) ||
      (decide (m.location? = some place) && s.debugger.isBreakpoint place))
  drive : ∀ fuel, s.drive true (fuel + 1) = t.drive true fuel

/-- A step stays on a patched trap, and halts again after an instruction that does not end the call
otherwise. -/
theorem exists_stepsOn (hs : s.vm.PausedIn program m) (hplan : s.plan = some plan)
    (hnext : plan.next s.observe = (.request .step, plan'))
    (hgo : if m.location?.any s.vm.isPatched then next = m
      else (m.step program).bind Transition.rest? = some (.halted next)) :
    ∃ t, StepsOn program m next plan' s t := by
  let active : Stepper := { s with plan := some plan', state := .active }
  have hactive : active.vm.PausedIn program m := hs
  rcases serve_step hactive (.inr rfl) with
    ⟨hfree, hnone, -⟩ | ⟨rest, t, hat, hframes, hrest, hserve⟩
  · have hfree : m.location?.any s.vm.isPatched = false := hfree
    rw [hfree, if_neg Bool.false_ne_true, hnone] at hgo
    cases hgo
  have hrest : if m.location?.any s.vm.isPatched then rest = .halted m
    else (m.step program).bind Transition.rest? = some rest := hrest
  have hrest : rest = .halted next := by
    by_cases hpatched : m.location?.any s.vm.isPatched = true
    · rw [if_pos hpatched] at hgo hrest
      rw [hrest, hgo]
    · rw [if_neg hpatched] at hgo hrest
      exact Option.some.inj (hrest.symm.trans hgo)
  subst hrest
  obtain ⟨hstepped, hserve⟩ := hserve
  refine ⟨t, ⟨hstepped.plain.trans hs.plain, hat.1, hat.2, hframes next rfl⟩, hstepped.plan,
    funext hstepped.isBreakpoint, ?_, fun place => ?_, fun fuel => ?_⟩
  · rw [hstepped.onBreakpoint, hat.haltedAt?]
    rfl
  · rw [hstepped.isPatched, hat.haltedAt?, hactive.haltedAt?]
    rfl
  · rw [drive_request hplan hnext, hserve]
    cases t.onBreakpoint <;> rfl

/-- A plan is over after a step that noted a trap. -/
theorem StepsOn.drive_isSome (h : StepsOn program m next plan s t) (hissued : plan.phase ≠ .start)
    (hnote : next.location?.any s.vm.isPatched = true) (fuel : Nat) :
    (s.drive true (fuel + 2)).isSome := by
  obtain ⟨place, hplace⟩ := Debuggee.location?_eq_some h.paused.frames_ne_nil
  have hdone : (plan.next t.observe).1 = .done := by
    apply Plan.next_of_mustStop hissued
    rw [observe_eq h.paused hplace, Plan.mustStop, h.noted, hnote, Bool.true_or]
  rw [h.drive, drive_done h.planned hdone]
  rfl

/-! ## Stepping to a trap -/

/-- A stepper whose plan has come to a machine by so many instructions. -/
structure Underway (traps marks : Location → Bool) (program : Program) (start : Machine)
    (plan : Plan) (k : Nat) (m : Machine) (s : Stepper) : Prop where
  paused : s.vm.PausedIn program m
  planned : s.plan = some plan
  marked : s.debugger.isBreakpoint = marks
  tracks : start.Tracks program traps marks k m s.vm.isPatched
  here : s.onBreakpoint = true ∨ m.location?.any s.vm.isPatched = true ↔
    start.RunsInto program traps marks k

/-- By a step that moves on, a plan comes one instruction further. -/
theorem exists_underway (hs : s.vm.PausedIn program m) (hplan : s.plan = some plan)
    (hnext : plan.next s.observe = (.request .step, plan'))
    (hmarked : s.debugger.isBreakpoint = marks)
    (htracks : start.Tracks program traps marks k m s.vm.isPatched)
    (hfree : ¬start.RunsInto program traps marks k)
    (hunpatched : m.location?.any s.vm.isPatched = false)
    (hmoved : m.step program = some (.moved next)) :
    ∃ t, Underway traps marks program start plan' (k + 1) next t ∧
      ∀ fuel, s.drive true (fuel + 1) = t.drive true fuel := by
  have hgo : if m.location?.any s.vm.isPatched then next = m
      else (m.step program).bind Transition.rest? = some (.halted next) := by
    rw [if_neg (Bool.eq_false_iff.mp hunpatched), hmoved]
    rfl
  obtain ⟨t, ht⟩ := exists_stepsOn hs hplan hnext hgo
  obtain ⟨place, hplace⟩ := Debuggee.location?_eq_some ht.paused.frames_ne_nil
  have hleft (other : Location) (hother : s.vm.isPatched other = true) :
      m.location? ≠ some other := by
    intro hhere
    rw [hhere, Option.any_some, hother] at hunpatched
    cases hunpatched
  have hpatched : Machine.PatchedBy marks m next s.vm.isPatched t.vm.isPatched := by
    intro other
    rw [ht.isPatched, hmarked, Bool.or_eq_true_iff, Bool.and_eq_true_iff, Bool.and_eq_true_iff,
      decide_eq_true_iff, decide_eq_true_iff, and_iff_right_of_imp fun h => hleft other h.1]
  refine ⟨t, ⟨ht.paused, ht.planned, ht.marked.trans hmarked,
    htracks.succ hfree hmoved hpatched, ?_⟩, ht.drive⟩
  rw [htracks.runsInto_succ_iff hfree hmoved hpatched hplace, ht.noted, hplace, Option.any_some,
    Option.any_some, and_iff_right_of_imp (hleft place)]

/-- A step on a trap of the program stays there and arms the location, if that is marked. -/
theorem exists_stepsOn_of_atTrap (hs : s.vm.PausedIn program m) (hplan : s.plan = some plan)
    (hnext : plan.next s.observe = (.request .step, plan')) (htrap : m.AtTrap program) :
    ∃ t, StepsOn program m m plan' s t ∧
      m.location?.any t.vm.isPatched = m.location?.any s.debugger.isBreakpoint := by
  have hgo : if m.location?.any s.vm.isPatched then m = m
      else (m.step program).bind Transition.rest? = some (.halted m) := by
    split
    · rfl
    · obtain ⟨p, -, rfl⟩ := hs.live
      rw [Machine.step_of_atTrap htrap]
      rfl
  obtain ⟨t, ht⟩ := exists_stepsOn hs hplan hnext hgo
  refine ⟨t, ht, ?_⟩
  obtain ⟨place, hplace⟩ := Debuggee.location?_eq_some hs.frames_ne_nil
  simp [hplace, ht.isPatched]

/-- A stepper that has executed a trap of the program. Nothing was noted, and the location is armed
if it is marked. -/
structure Held (marks : Location → Bool) (program : Program) (plan : Plan) (m : Machine)
    (s : Stepper) : Prop where
  paused : s.vm.PausedIn program m
  planned : s.plan = some plan
  marked : s.debugger.isBreakpoint = marks
  noted : s.onBreakpoint = false
  armed : m.location?.any s.vm.isPatched = m.location?.any marks

theorem exists_held (hs : s.vm.PausedIn program m) (hplan : s.plan = some plan)
    (hnext : plan.next s.observe = (.request .step, plan'))
    (hmarked : s.debugger.isBreakpoint = marks)
    (hunpatched : m.location?.any s.vm.isPatched = false) (htrap : m.AtTrap program) :
    ∃ t, Held marks program plan' m t ∧ ∀ fuel, s.drive true (fuel + 1) = t.drive true fuel := by
  obtain ⟨t, ht, harmed⟩ := exists_stepsOn_of_atTrap hs hplan hnext htrap
  rw [hmarked] at harmed
  exact ⟨t, ⟨ht.paused, ht.planned, ht.marked.trans hmarked, ht.noted.trans hunpatched, harmed⟩,
    ht.drive⟩

section Walk

variable {command : Command} {first : Location}
  (hplan : plan = ⟨command, .stepping (Plan.originOf program start first)⟩)
  (hfirst : start.location? = some first) (hcommand : command ≠ .proceed ∧ command ≠ .single)

include hplan hfirst hcommand

/-- A plan that has not come to an injected trap, nor to a machine to stop at, asks for another
step, and no trap stands in its way. -/
theorem Underway.goes_on (h : Underway traps marks program start plan k m s)
    (hfree : ¬start.RunsInto program traps marks k) (hpass : ¬command.StopsAt program start m) :
    plan.next s.observe = (.request .step, plan) ∧ m.location?.any s.vm.isPatched = false := by
  obtain ⟨hnote, hunpatched⟩ := not_or.mp (mt h.here.mp hfree)
  subst hplan
  rcases Plan.next_cases h.paused hfirst hcommand with ⟨-, hstops⟩ | ⟨hnext, -⟩
  · exact absurd hstops (not_or.mpr ⟨hnote, hpass⟩)
  · exact ⟨hnext, Bool.eq_false_iff.mpr hunpatched⟩

/-- Such a plan comes one instruction further. -/
theorem Underway.step (h : Underway traps marks program start plan k m s)
    (hfree : ¬start.RunsInto program traps marks k) (hmoved : m.step program = some (.moved next))
    (hpass : ¬command.StopsAt program start m) :
    ∃ t, Underway traps marks program start plan (k + 1) next t ∧
      ∀ fuel, s.drive true (fuel + 1) = t.drive true fuel := by
  obtain ⟨hnext, hunpatched⟩ := h.goes_on hplan hfirst hcommand hfree hpass
  exact exists_underway h.paused h.planned hnext h.marked h.tracks hfree hunpatched hmoved

/-- A plan is over at an injected trap, and at a machine to stop at, that it comes to by so many
instructions. At the trap it can take another request to note it. By induction on their number. -/
theorem Underway.drive_isSome (h : Underway traps marks program start plan k m s) {last : Machine}
    (hlast : start.after program (k + n) = some last)
    (hfree : ∀ j < k + n, ¬start.RunsInto program traps marks j)
    (hstop : start.RunsInto program traps marks (k + n) ∨ command.StopsAt program start last)
    (fuel : Nat) : (s.drive true (fuel + n + 2)).isSome := by
  have hover {m : Machine} {s : Stepper} {k : Nat}
      (h : Underway traps marks program start plan k m s)
      (hdone : (plan.next s.observe).1 = .done) (fuel : Nat) :
      (s.drive true (fuel + 1)).isSome := by
    rw [drive_done h.planned hdone]
    rfl
  subst hplan
  induction n generalizing k m s with
  | zero =>
    obtain rfl := Option.some.inj (h.tracks.after.symm.trans hlast)
    rcases Plan.next_cases h.paused hfirst hcommand with ⟨hdone, -⟩ | ⟨hnext, hnote, hpass⟩
    · exact hover h hdone _
    · have hpatched : m.location?.any s.vm.isPatched = true :=
        (h.here.mpr (hstop.resolve_right hpass)).resolve_left (Bool.eq_false_iff.mp hnote)
      obtain ⟨t, ht⟩ := exists_stepsOn h.paused h.planned hnext
        (by rw [if_pos hpatched] : if _ then m = m else _)
      exact ht.drive_isSome nofun hpatched fuel
  | succ n ih =>
    obtain ⟨next, hmoved, -⟩ := Machine.exists_step_of_after hlast h.tracks.after (by omega)
    rcases Plan.next_cases h.paused hfirst hcommand with ⟨hdone, -⟩ | ⟨-, -, hpass⟩
    · exact hover h hdone _
    · obtain ⟨t, ht, hdrive⟩ := h.step rfl hfirst hcommand (hfree k (by omega)) hmoved hpass
      have hbound : fuel + (n + 1) + 2 = fuel + n + 2 + 1 := by omega
      rw [hbound, hdrive]
      rw [← Nat.add_assoc, Nat.add_right_comm k n 1] at hlast hfree hstop
      exact ih hlast hfree hstop ht

/-- On a trap of the program where it does not stop by its rule, a plan asks for another step. That
is the last one if the location is marked, and otherwise nothing has changed after it. -/
theorem Held.drive_isSome_iff (h : Held marks program plan m s) (htrap : m.AtTrap program)
    (hpass : ¬command.StopsAt program start m) (fuel : Nat) :
    (s.drive true fuel).isSome ↔ 2 ≤ fuel ∧ m.location?.any marks = true := by
  subst hplan
  induction fuel generalizing s with
  | zero => exact iff_of_false Bool.false_ne_true nofun
  | succ fuel ih =>
    rcases Plan.next_cases h.paused hfirst hcommand with ⟨-, hstops⟩ | ⟨hnext, -⟩
    · rw [h.noted] at hstops
      exact absurd hstops (not_or.mpr ⟨Bool.false_ne_true, hpass⟩)
    cases hmark : m.location?.any marks with
    | true =>
      obtain ⟨t, ht, -⟩ := exists_stepsOn_of_atTrap h.paused h.planned hnext htrap
      cases fuel with
      | zero =>
        rw [ht.drive]
        exact iff_of_false Bool.false_ne_true fun hbound => absurd hbound.1 (by decide)
      | succ fuel =>
        exact iff_of_true (ht.drive_isSome nofun (h.armed.trans hmark) fuel) ⟨by omega, rfl⟩
    | false =>
      obtain ⟨t, ht, hdrive⟩ :=
        exists_held h.paused h.planned hnext h.marked (h.armed.trans hmark) htrap
      rw [hdrive, ih ht, hmark]
      simp

/-- A plan that is not over by the first trap comes to a trap of the program, and executes it. By
induction on the instructions up to it. -/
theorem Underway.exists_held (h : Underway traps marks program start plan k m s) (hk : 0 < k)
    (hfirstTrap : start.FirstTrap program traps marks (k + n))
    (hgoes : ¬start.EndsBy program traps marks (fun m => command.StopsAt program start m) (k + n)) :
    ∃ last t, start.after program (k + n) = some last ∧ Held marks program plan last t ∧
      ∀ fuel, s.drive true (fuel + n + 1) = t.drive true fuel := by
  induction n generalizing k m s with
  | zero =>
    obtain ⟨hruns, hpass⟩ := not_or.mp hgoes
    obtain ⟨hnext, hunpatched⟩ := h.goes_on hplan hfirst hcommand hruns
      fun hstop => hpass (.of_last h.tracks.after hstop)
    obtain ⟨t, ht, hdrive⟩ := Stepper.exists_held h.paused h.planned hnext h.marked hunpatched
      (hfirstTrap.atTrap hruns h.tracks.after)
    exact ⟨m, t, h.tracks.after, ht, hdrive⟩
  | succ n ih =>
    obtain ⟨last, hlast⟩ := hfirstTrap.exists_after
    obtain ⟨next, hmoved, -⟩ := Machine.exists_step_of_after hlast h.tracks.after (by omega)
    have hfree := hfirstTrap.not_runsInto (show k < k + (n + 1) by omega)
    obtain ⟨t, ht, hdrive⟩ := h.step hplan hfirst hcommand hfree hmoved
      fun hstop => hgoes (.inr ⟨k, m, .inl hk, by omega, h.tracks.after, hstop⟩)
    rw [← Nat.add_assoc, Nat.add_right_comm k n 1] at hfirstTrap hgoes ⊢
    obtain ⟨last, u, hlast, hu, hgo⟩ := ih ht k.succ_pos hfirstTrap hgoes
    refine ⟨last, u, hlast, hu, fun fuel => ?_⟩
    rw [← hgo, ← hdrive]
    rfl

end Walk

/-! ## Commands -/

section Begin

variable {command : Command} (hs : s.vm.PausedIn program m)
  (hcommand : command ≠ .proceed ∧ command ≠ .single)
  (hfirst : m.FirstTrap program s.vm.isPatched s.debugger.isBreakpoint k)

include hs hcommand hfirst

/-- The first step of a command that is not given on a patched trap, and not ended by a trap of the
program at once, leads on. -/
theorem exists_underway_begin (hplan : s.plan = some { command }) (hk : 0 < k) :
    ∃ first next t, m.location? = some first ∧
      Underway s.vm.isPatched s.debugger.isBreakpoint program m
        ⟨command, .stepping (Plan.originOf program m first)⟩ 1 next t ∧
      ∀ fuel, s.drive true (fuel + 1) = t.drive true fuel := by
  obtain ⟨first, hplace⟩ := Debuggee.location?_eq_some hs.frames_ne_nil
  obtain ⟨last, hlast⟩ := hfirst.exists_after
  obtain ⟨next, hmoved, -⟩ := Machine.exists_step_of_after hlast rfl hk
  have hfree := hfirst.not_runsInto hk
  have hunpatched := Bool.eq_false_iff.mpr (mt Machine.runsInto_zero_iff.mpr hfree)
  have htracks : m.Tracks program s.vm.isPatched s.debugger.isBreakpoint 0 m s.vm.isPatched :=
    ⟨rfl, fun place _ => by simp [Machine.Injected]⟩
  obtain ⟨t, ht, hdrive⟩ :=
    exists_underway hs hplan (next_begin hs hplace hcommand) rfl htracks hfree hunpatched hmoved
  exact ⟨first, next, t, hplace, ht, hdrive⟩

/-- A command that has an end by the first trap is answered within a request for each instruction,
and two more. -/
theorem drive_isSome_of_endsBy (hplan : s.plan = some { command })
    (hends : m.EndsBy program s.vm.isPatched s.debugger.isBreakpoint
      (fun mid => command.StopsAt program m mid) k) :
    (s.drive true (k + 2)).isSome := by
  cases k with
  | zero =>
    obtain ⟨first, hplace⟩ := Debuggee.location?_eq_some hs.frames_ne_nil
    have hpatched := (Machine.endsBy_zero_iff hcommand.2).mp hends
    obtain ⟨t, ht⟩ := exists_stepsOn hs hplan (next_begin hs hplace hcommand)
      (by rw [if_pos hpatched] : if _ then m = m else _)
    exact ht.drive_isSome nofun hpatched 0
  | succ k =>
    obtain ⟨first, next, t, hplace, ht, hdrive⟩ :=
      exists_underway_begin hs hcommand hfirst hplan k.succ_pos
    have hby {n : Nat} {last : Machine} (hle : n ≤ k) (hlast : m.after program (n + 1) = some last)
        (hstop : m.RunsInto program s.vm.isPatched s.debugger.isBreakpoint (n + 1) ∨
          command.StopsAt program m last) : (s.drive true (k + 1 + 2)).isSome := by
      obtain ⟨more, rfl⟩ := Nat.exists_eq_add_of_le' hle
      rw [Nat.add_comm] at hlast hstop
      have hbound : more + n + 1 + 2 = more + n + 2 + 1 := rfl
      rw [hbound, hdrive]
      exact ht.drive_isSome rfl hplace hcommand hlast
        (fun j hj => hfirst.not_runsInto (by omega)) hstop more
    rcases hends with hruns | ⟨j, mid, hj, hle, hmid, hstop⟩
    · obtain ⟨last, hlast⟩ := hfirst.exists_after
      exact hby le_rfl hlast (.inl hruns)
    · obtain ⟨n, rfl⟩ : ∃ n, j = n + 1 := ⟨j - 1, by omega⟩
      exact hby (by omega) hmid (.inr hstop)

/-- A command that has no end by the first trap comes to a trap of the program, and executes it. -/
theorem exists_held_of_not_endsBy (hplan : s.plan = some { command })
    (hgoes : ¬m.EndsBy program s.vm.isPatched s.debugger.isBreakpoint
      (fun mid => command.StopsAt program m mid) k) :
    ∃ first last t, m.location? = some first ∧ m.after program k = some last ∧
      Held s.debugger.isBreakpoint program
        ⟨command, .stepping (Plan.originOf program m first)⟩ last t ∧
      ∀ fuel, s.drive true (fuel + k + 1) = t.drive true fuel := by
  cases k with
  | zero =>
    obtain ⟨first, hplace⟩ := Debuggee.location?_eq_some hs.frames_ne_nil
    have hruns := (not_or.mp hgoes).1
    have hunpatched := Bool.eq_false_iff.mpr (mt Machine.runsInto_zero_iff.mpr hruns)
    obtain ⟨t, ht, hdrive⟩ := exists_held hs hplan (next_begin hs hplace hcommand) rfl hunpatched
      (hfirst.atTrap hruns rfl)
    exact ⟨first, m, t, hplace, rfl, ht, hdrive⟩
  | succ k =>
    obtain ⟨first, next, t, hplace, ht, hdrive⟩ :=
      exists_underway_begin hs hcommand hfirst hplan k.succ_pos
    rw [Nat.add_comm] at hfirst hgoes
    obtain ⟨last, u, hlast, hu, hgo⟩ :=
      ht.exists_held rfl hplace hcommand Nat.one_pos hfirst hgoes
    rw [Nat.add_comm] at hlast
    refine ⟨first, last, u, hplace, hlast, hu, fun fuel => ?_⟩
    rw [← hgo, ← hdrive]
    rfl

/-- Where the trace of a halted call comes to a trap, a stepping command ends by the first one if
that is an injected trap, or if its rule ends it before or there. Otherwise it executes a trap of
the program, and ends only if there is a breakpoint at the trap, and then by executing it again. -/
theorem start_isSome_iff :
    let ends := m.EndsBy program s.vm.isPatched s.debugger.isBreakpoint
      (fun mid => command.StopsAt program m mid) k
    ((s.start (k + 2) command).isSome ↔ ends) ∧
      ((∃ fuel, (s.start fuel command).isSome) ↔ ends ∨
        ∃ last, m.after program k = some last ∧
          last.location?.any s.debugger.isBreakpoint = true) := by
  intro ends
  let begun : Stepper := { s with plan := some { command }, state := .starting }
  have hstart (fuel : Nat) : (s.start fuel command).isSome = (begun.drive true fuel).isSome := by
    rw [start_eq hs.isPaused, Option.isSome_map]
  simp only [hstart]
  by_cases hends : ends
  · have hreached := drive_isSome_of_endsBy (s := begun) hs hcommand hfirst rfl hends
    exact ⟨iff_of_true hreached hends, iff_of_true ⟨k + 2, hreached⟩ (.inl hends)⟩
  · obtain ⟨first, last, t, hplace, hlast, ht, hdrive⟩ :=
      exists_held_of_not_endsBy (s := begun) hs hcommand hfirst rfl hends
    obtain ⟨hruns, hpass⟩ := not_or.mp hends
    have hheld := ht.drive_isSome_iff rfl hplace hcommand (hfirst.atTrap hruns hlast)
      fun hstop => hpass (.of_last hlast hstop)
    constructor
    · have hbound : k + 2 = 1 + k + 1 := by omega
      rw [hbound, hdrive, hheld]
      exact iff_of_false (fun htwice => absurd htwice.1 (by decide)) hends
    · rw [or_iff_right hends]
      constructor
      · rintro ⟨fuel, hfuel⟩
        obtain ⟨answer, hanswer⟩ := Option.isSome_iff_exists.mp hfuel
        have hlater := drive_mono (show fuel ≤ fuel + k + 1 by omega) hanswer
        rw [hdrive] at hlater
        exact ⟨last, hlast, ((hheld fuel).mp (Option.isSome_of_eq_some hlater)).2⟩
      · rintro ⟨last', hlast', hmark⟩
        cases hlast.symm.trans hlast'
        refine ⟨2 + k + 1, ?_⟩
        rw [hdrive, hheld]
        exact ⟨le_rfl, hmark⟩

end Begin

end Stepper

/-! ## Sessions -/

namespace Host

/-- A call that is paused after any session is halted in its machine. -/
theorem Session.pausedIn {start host : Host} {failed : Bool} {program : Program}
    (hnew : start.vm = {}) (hsession : Session (fun _ => True) start failed host)
    (hprogram : host.vm.plain? = some program) (hpaused : host.vm.isPaused = true) :
    host.vm.PausedIn program host.vm.machine :=
  ⟨hprogram, of_decide_eq_true hpaused, rfl, (hsession.consistent hnew).paused_iff.mp hpaused⟩

/-- After any session, whatever programs were loaded, and where the trace of a halted call comes to
a trap: the steps of a debugger and of a stepper end by the first one if it was injected, or if they
stop at a machine before or there by their own rules. Given on a call, `stepNext` ends by every trap
on the way of its run. Otherwise, at a trap of the program, the steps of a debugger never end, and
those of a stepper end only if there is a breakpoint at the trap, and only after it was executed a
second time. -/
theorem Session.steps_end_at_trap_iff {start host : Host} {failed : Bool} {program : Program}
    (hnew : start.vm = {}) (hsession : Session (fun _ => True) start failed host)
    (hprogram : host.vm.plain? = some program) (hpaused : host.vm.isPaused = true) (k : Nat) :
    (∀ d origin, host.debugger? = some d → d.pausedFrame? = some origin →
      (∀ last, d.vm.machine.AtCall program → d.vm.machine.after program (k + 1) = some last →
        (d.released origin).HaltsOver program d.vm.machine last →
        ∃ fuel, (d.stepNext fuel).isSome) ∧
      (d.vm.machine.FirstTrap program (d.released origin).vm.isPatched d.isBreakpoint k →
        let ends := d.vm.machine.EndsBy program (d.released origin).vm.isPatched d.isBreakpoint
          (·.AtStopPoint d.hasBreakpoint program) k
        ((d.stepInto (k + 1)).isSome ↔ ends) ∧ ((∃ fuel, (d.stepInto fuel).isSome) ↔ ends) ∧
          ((∃ fuel, (d.stepNext fuel).isSome) ↔ d.vm.machine.AtCall program ∨ ends))) ∧
    ∀ s command, host.stepper? = some s → command ≠ .proceed → command ≠ .single →
      s.vm.machine.FirstTrap program s.vm.isPatched s.debugger.isBreakpoint k →
      let ends := s.vm.machine.EndsBy program s.vm.isPatched s.debugger.isBreakpoint
        (fun m => command.StopsAt program s.vm.machine m) k
      ((s.start (k + 2) command).isSome ↔ ends) ∧
        ((∃ fuel, (s.start fuel command).isSome) ↔ ends ∨
          ∃ last, s.vm.machine.after program k = some last ∧
            last.location?.any s.debugger.isBreakpoint = true) := by
  have hvm := hsession.pausedIn hnew hprogram hpaused
  constructor
  · intro d origin hd horigin
    have hd : d.vm.PausedIn program d.vm.machine := by
      rw [vm_of_debugger? hd]
      exact hvm
    constructor
    · intro last hcall hlast hhalts
      exact Debugger.exists_stepNext_of_atCall hd horigin hcall hlast hhalts
    · intro hfirst
      obtain ⟨hbound, hends⟩ := Debugger.stepInto_isSome_iff hd horigin hfirst
      exact ⟨hbound, hends, Debugger.exists_stepNext_iff hd horigin hfirst⟩
  · intro s command hs hproceed hsingle hfirst
    cases host with
    | debuggee vm => cases hs
    | debugger d => cases hs
    | stepper s =>
      cases hs
      exact Stepper.start_isSome_iff hvm ⟨hproceed, hsingle⟩ hfirst

end Host

/-- A program whose exported routine begins by a trap. -/
def Program.snag : Program :=
  single "snag" #[{ op := .trap }, { op := .ret }]

/-- A debugger whose call is halted on the trap of the program. -/
def Debugger.onSnag : Debugger :=
  match (({} : Debugger).load .snag).2.call 1 "snag" #[] with
  | some (_, d) => d
  | none => {}

/-- A stepper whose call is halted on the trap of the program, where it has a breakpoint. -/
def Stepper.onSnag : Stepper :=
  match ((Stepper.ofDebugger {}).load .snag).set ⟨0, 0⟩ |>.call 2 "snag" #[] with
  | some (_, s) => s
  | none => .ofDebugger {}

theorem Machine.atTrap_onSnag : Machine.AtTrap .snag Debugger.onSnag.vm.machine :=
  ⟨⟨0, 0⟩, { op := .trap }, by decide +kernel, by decide +kernel, rfl⟩

theorem Host.Session.stepper_onSnag :
    Session (fun _ => True) (.stepper (.ofDebugger {})) false (.stepper .onSnag) := by
  have hloaded : Session (fun _ => True) (.stepper (.ofDebugger {})) false
      (.stepper ((Stepper.ofDebugger {}).load .snag)) :=
    .perform .new trivial (show Host.perform 0 _ (.stepper (.load .snag)) = some _ from rfl)
  have hset := hloaded.perform trivial
    (show Host.perform 0 _ (.stepper (.set ⟨0, 0⟩)) = some _ from rfl)
  exact hset.perform trivial
    (show Host.perform 2 _ (.stepper (.call "snag" #[])) = some (.stopped .paused, _) from rfl)

/-- At a trap of the program that has a breakpoint, the debugger within ends a step by one request,
and the stepper does not end it by one, but ends it. -/
theorem Host.Session.steps_end_at_trap_iff_snag :
    (Stepper.onSnag.debugger.stepInto 1).isSome ∧ (Stepper.onSnag.start 2 .into).isSome = false ∧
      ∃ fuel, (Stepper.onSnag.start fuel .into).isSome := by
  have hmachine : Stepper.onSnag.vm.machine = Debugger.onSnag.vm.machine := by decide +kernel
  have htrap : Machine.AtTrap .snag Stepper.onSnag.vm.machine := hmachine ▸ Machine.atTrap_onSnag
  obtain ⟨hdebugger, hstepper⟩ := Host.Session.steps_end_at_trap_iff rfl .stepper_onSnag
    (show _ = some Program.snag by decide +kernel) (by decide +kernel) 0
  obtain ⟨hinto, -⟩ :=
    (hdebugger _ ⟨⟨0⟩, 0, 0⟩ rfl (by decide +kernel)).2 (Machine.firstTrap_zero htrap)
  obtain ⟨hbound, hends⟩ := hstepper _ .into rfl nofun nofun (Machine.firstTrap_zero htrap)
  have hstops : Stepper.onSnag.vm.machine.AtStopPoint Stepper.onSnag.debugger.hasBreakpoint .snag :=
    .inl (by decide +kernel)
  refine ⟨hinto.mpr (.inr (.of_last rfl hstops)), ?_, hends.mpr (.inr ⟨_, rfl, ?_⟩)⟩
  · rw [Bool.eq_false_iff, ne_eq, hbound, Machine.endsBy_zero_iff (by decide)]
    decide +kernel
  · decide +kernel

/-- The program is read from its image. The call is halted on its trap, which has no breakpoint and
no span: the steps of a debugger on it never end, and neither do those of a stepper over it. With a
breakpoint there, a step of a stepper ends, but not by the halt on the trap that it starts on. -/
theorem Host.Session.unending_steps_snag :
    Wire.decode (Wire.encode .snag) = .ok .snag ∧
      Session (fun _ => True) (.debugger {}) false (.debugger .onSnag) ∧
      Debugger.onSnag.vm.isPaused = true ∧ Machine.AtTrap .snag Debugger.onSnag.vm.machine ∧
      (∀ fuel, Debugger.onSnag.stepInto fuel = none ∧ Debugger.onSnag.stepNext fuel = none) ∧
      Session (fun _ => True) (.debugger {}) false (.stepper (watchedStepper .onSnag)) ∧
      (∀ fuel command, command ≠ .proceed → command ≠ .single →
        (watchedStepper .onSnag).start fuel command = none) ∧
      Session (fun _ => True) (.stepper (.ofDebugger {})) false (.stepper .onSnag) ∧
      (Stepper.onSnag.start 2 .into).isSome = false ∧ (Stepper.onSnag.start 3 .into).isSome := by
  have hloaded : Session (fun _ => True) (.debugger {}) false
      (.debugger (({} : Debugger).load .snag).2) :=
    .perform .new trivial (show Host.perform 0 _ (.debugger (.load .snag)) = some _ from rfl)
  have hsession : Session (fun _ => True) (.debugger {}) false (.debugger .onSnag) :=
    hloaded.perform trivial
      (show Host.perform 1 _ (.debugger (.call "snag" #[])) = some (.stopped .paused, _) from rfl)
  have hwrapped : Session (fun _ => True) (.debugger {}) false
      (.stepper (watchedStepper .onSnag)) :=
    hsession.perform trivial (show Host.perform 0 _ .wrap = some (.done, _) from rfl)
  have hpaused : Debugger.onSnag.vm.PausedIn .snag Debugger.onSnag.vm.machine :=
    hsession.pausedIn rfl (show _ = some Program.snag by decide +kernel) (by decide +kernel)
  have htrap := Machine.atTrap_onSnag
  have hpass : ¬Debugger.onSnag.vm.machine.AtStopPoint Debugger.onSnag.hasBreakpoint .snag := by
    rintro (hset | hspan)
    · exact absurd hset (by decide +kernel)
    · exact absurd hspan (by decide +kernel)
  have hinto (fuel : Nat) : Debugger.onSnag.stepInto fuel = none := by
    rw [Debugger.stepInto, Debugger.stepToStopPoint_eq_none hpaused htrap hpass]
    rfl
  refine ⟨by decide +kernel, hsession, hpaused.isPaused, htrap, fun fuel => ⟨hinto fuel, ?_⟩,
    hwrapped, ?_, .stepper_onSnag, by decide +kernel, by decide +kernel⟩
  · rw [Debugger.stepNext_eq hpaused htrap.not_atCall, hinto]
  · intro fuel command hproceed hsingle
    have hends := (Stepper.start_isSome_iff (s := watchedStepper .onSnag) (k := 0) hpaused
      ⟨hproceed, hsingle⟩ (Machine.firstTrap_zero htrap)).2
    rw [← Option.not_isSome_iff_eq_none]
    intro hanswer
    rcases hends.mp ⟨fuel, hanswer⟩ with hends | ⟨last, hlast, hmark⟩
    · rw [Machine.endsBy_zero_iff hsingle] at hends
      exact absurd hends (by decide +kernel)
    · cases hlast
      exact absurd hmark (by decide +kernel)

end BytecodeDebugger
