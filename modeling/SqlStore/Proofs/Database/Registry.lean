import SqlStore.Proofs.Transaction.Firings

/-!
# The life of triggers

What a database knows of its triggers is its `Registry`: who is registered, and who was called for what.
With quiet triggers five kinds of steps are all that happens to it (`Registry.Step`), and along them a
trigger that was registered stays registered and only fires until it is removed, and is not called any
more after that (`Registry.Tracks`). A trigger that fails its removal is gone without having been closed.
-/

open Relation

namespace SqlStore

open Run

/-- The call is a firing. -/
def TriggerCall.IsFire : TriggerCall → Prop
  | .fire _ _ _ => True
  | _ => False

/-- What a trigger answers its last call with, if it fails. -/
def Trigger.failure (t : Trigger) (calls : List TriggerCall) : Option Error := (t.react calls).failure

/-- The registered triggers, and the calls of triggers so far. -/
structure Registry where
  registrations : List Registration
  nextSerial : Nat
  trace : List TriggerEvent

namespace Registry

/-- The calls of the trigger of a serial number. -/
def calls (g : Registry) (k : Nat) : List TriggerCall :=
  (g.trace.filter fun e => e.serial == k).map TriggerEvent.call

/-- Records the call of a trigger. -/
def record (g : Registry) (r : Registration) (call : TriggerCall) : Registry :=
  { g with trace := g.trace ++ [⟨r.serial, r.definition.name, call⟩] }

/-- Takes a registration out. -/
def without (g : Registry) (r : Registration) : Registry :=
  { g with registrations := g.registrations.filter fun q => q.serial != r.serial }

/-- Gives the next serial number to a trigger and tells the trigger. -/
def introduce (g : Registry) (t : Trigger) : Registry :=
  { g with nextSerial := g.nextSerial + 1 }.record ⟨g.nextSerial, t⟩ .init

/-- A step in the life of triggers. -/
inductive Step : Registry → Registry → Prop
  /-- A registered trigger fires. -/
  | fired {g : Registry} {r : Registration} {call : TriggerCall} (hr : r ∈ g.registrations)
      (hcall : call.IsFire) : Step g (g.record r call)
  /-- A trigger refuses to be registered. -/
  | refused {g : Registry} (t : Trigger) : Step g (g.introduce t)
  /-- A trigger is registered. -/
  | registered {g : Registry} (t : Trigger) :
      Step g { g.introduce t with registrations := g.registrations ++ [⟨g.nextSerial, t⟩] }
  /-- A trigger is removed and fails. -/
  | removed {g : Registry} {r : Registration} (hr : r ∈ g.registrations)
      (hfailure : r.trigger.failure (g.calls r.serial ++ [.remove]) ≠ none) :
      Step g ((g.without r).record r .remove)
  /-- A trigger is removed and closed. -/
  | dismissed {g : Registry} {r : Registration} (hr : r ∈ g.registrations)
      (hpassed : r.trigger.failure (g.calls r.serial ++ [.remove]) = none) :
      Step g (((g.without r).record r .remove).record r .close)

variable {g g' : Registry} {r : Registration} {call : TriggerCall} {k : Nat}

theorem calls_record_self (g : Registry) (r : Registration) (call : TriggerCall) :
    (g.record r call).calls r.serial = g.calls r.serial ++ [call] := by
  unfold calls record
  rw [List.filter_append, List.map_append, List.filter_singleton, beq_self_eq_true]
  rfl

theorem calls_record_of_ne (h : r.serial ≠ k) : (g.record r call).calls k = g.calls k := by
  unfold calls record
  rw [List.filter_append, List.filter_singleton, beq_false_of_ne h]
  simp

theorem mem_without {q : Registration} :
    q ∈ (g.without r).registrations ↔ q ∈ g.registrations ∧ q.serial ≠ r.serial := by
  unfold without
  simp

/-! ## Serial numbers -/

/-- Serial numbers tell triggers apart, and the next one was not used. -/
structure Sound (g : Registry) : Prop where
  recorded : ∀ e ∈ g.trace, e.serial < g.nextSerial
  below : ∀ r ∈ g.registrations, r.serial < g.nextSerial
  nodup : (g.registrations.map Registration.serial).Nodup

namespace Sound

theorem eq_of_serial_eq (h : g.Sound) {q : Registration} (hr : r ∈ g.registrations)
    (hq : q ∈ g.registrations) (heq : q.serial = r.serial) : q = r :=
  List.inj_on_of_nodup_map h.nodup hq hr heq

/-- A trigger under a number to come was not called. -/
theorem calls_eq_nil (h : g.Sound) (hk : g.nextSerial ≤ k) : g.calls k = [] := by
  have hnone : ∀ e ∈ g.trace, ¬ (e.serial == k) = true := by
    intro e he heq
    have hlt := h.recorded e he
    rw [beq_iff_eq.mp heq] at hlt
    omega
  unfold calls
  rw [List.filter_eq_nil_iff.mpr hnone, List.map_nil]

theorem record (h : g.Sound) (hr : r.serial < g.nextSerial) (call : TriggerCall) :
    (g.record r call).Sound := by
  refine ⟨fun e he => ?_, h.below, h.nodup⟩
  rcases List.mem_append.mp he with hold | hnew
  · exact h.recorded e hold
  · rw [List.mem_singleton.mp hnew]
    exact hr

theorem without (h : g.Sound) (r : Registration) : (g.without r).Sound where
  recorded := h.recorded
  below q hq := h.below q (mem_without.mp hq).1
  nodup := (List.filter_sublist.map _).nodup h.nodup

theorem introduce (h : g.Sound) (t : Trigger) : (g.introduce t).Sound := by
  have hnext : Sound { g with nextSerial := g.nextSerial + 1 } :=
    ⟨fun e he => Nat.lt_succ_of_lt (h.recorded e he),
      fun r hr => Nat.lt_succ_of_lt (h.below r hr), h.nodup⟩
  exact hnext.record (Nat.lt_succ_self _) .init

end Sound

theorem Step.sound (h : Step g g') (hg : g.Sound) : g'.Sound := by
  cases h with
  | fired hr hcall => exact hg.record (hg.below _ hr) _
  | refused t => exact hg.introduce t
  | registered t =>
    have hnew := hg.introduce t
    refine ⟨hnew.recorded, fun r hr => ?_, ?_⟩
    · rcases List.mem_append.mp hr with hold | hlast
      · exact hnew.below r hold
      · rw [List.mem_singleton.mp hlast]
        exact Nat.lt_succ_self _
    · show (List.map _ (g.registrations ++ _)).Nodup
      rw [List.map_append, List.nodup_append]
      refine ⟨hg.nodup, List.nodup_singleton _, ?_⟩
      intro k hk l hl
      obtain ⟨r, hr, rfl⟩ := List.mem_map.mp hk
      rw [List.mem_singleton.mp hl]
      exact Nat.ne_of_lt (hg.below r hr)
  | removed hr hfailure => exact (hg.without _).record (hg.below _ hr) _
  | dismissed hr hpassed =>
    exact ((hg.without _).record (hg.below _ hr) _).record (hg.below _ hr) _

/-! ## One trigger along the steps -/

/-- The calls of a trigger up to its removal: it is closed unless it failed. -/
def Removed (t : Trigger) (calls : List TriggerCall) : Prop :=
  ∃ fires : List TriggerCall, (∀ c ∈ fires, c.IsFire) ∧
    (calls = .init :: fires ++ [.remove, .close] ∧
        t.failure (.init :: fires ++ [.remove]) = none ∨
      calls = .init :: fires ++ [.remove] ∧ t.failure (.init :: fires ++ [.remove]) ≠ none)

/-- The trigger is registered and did nothing but fire, or it was removed. -/
inductive Tracks (g : Registry) (r : Registration) : Prop
  | alive (hr : r ∈ g.registrations) (fires : List TriggerCall) (hfires : ∀ c ∈ fires, c.IsFire)
      (hcalls : g.calls r.serial = .init :: fires)
  | gone (hr : ∀ q ∈ g.registrations, q.serial ≠ r.serial) (hlt : r.serial < g.nextSerial)
      (hcalls : Removed r.trigger (g.calls r.serial))

namespace Tracks

theorem serial_lt (h : g.Tracks r) (hg : g.Sound) : r.serial < g.nextSerial := by
  cases h with
  | alive hr fires hfires hcalls => exact hg.below r hr
  | gone hr hlt hcalls => exact hlt

/-- What happens to other triggers leaves a trigger alone. -/
theorem of_others (h : g.Tracks r) (hcalls : g'.calls r.serial = g.calls r.serial)
    (hnext : g.nextSerial ≤ g'.nextSerial)
    (hmem : ∀ q, q.serial = r.serial → (q ∈ g'.registrations ↔ q ∈ g.registrations)) :
    g'.Tracks r := by
  cases h with
  | alive hr fires hfires heq => exact .alive ((hmem r rfl).mpr hr) fires hfires (hcalls.trans heq)
  | gone hr hlt hremoved =>
    refine .gone (fun q hq heq => ?_) (Nat.lt_of_lt_of_le hlt hnext) (hcalls ▸ hremoved)
    exact hr q ((hmem q heq).mp hq) heq

theorem step (h : g.Tracks r) (hg : g.Sound) (hstep : Step g g') : g'.Tracks r := by
  have hlt := h.serial_lt hg
  cases hstep with
  | @fired q call hq hcall =>
    by_cases heq : q.serial = r.serial
    · cases h with
      | alive hr fires hfires hcalls =>
        obtain rfl := hg.eq_of_serial_eq hr hq heq
        refine .alive hr (fires ++ [call]) ?_ ?_
        · exact List.forall_mem_append.mpr ⟨hfires, List.forall_mem_singleton.mpr hcall⟩
        · rw [calls_record_self, hcalls, List.cons_append]
      | gone hr hlt hcalls => exact absurd heq (hr q hq)
    · exact h.of_others (calls_record_of_ne heq) (Nat.le_refl _) fun _ _ => Iff.rfl
  | refused t =>
    exact h.of_others (calls_record_of_ne (Nat.ne_of_gt hlt)) (Nat.le_succ _) fun _ _ => Iff.rfl
  | registered t =>
    refine h.of_others (calls_record_of_ne (Nat.ne_of_gt hlt)) (Nat.le_succ _) fun q hq => ?_
    -- the new registration has a greater number
    have hne : q ≠ ⟨g.nextSerial, t⟩ := by
      rintro rfl
      exact Nat.ne_of_gt hlt hq
    simp [hne]
  | @removed q hq hfailure =>
    by_cases heq : q.serial = r.serial
    · cases h with
      | alive hr fires hfires hcalls =>
        obtain rfl := hg.eq_of_serial_eq hr hq heq
        rw [hcalls] at hfailure
        refine .gone (fun p hp => (mem_without.mp hp).2) hlt ⟨fires, hfires, .inr ⟨?_, hfailure⟩⟩
        rw [calls_record_self]
        exact congrArg (fun calls => calls ++ [TriggerCall.remove]) hcalls
      | gone hr hlt hcalls => exact absurd heq (hr q hq)
    · refine h.of_others (calls_record_of_ne heq) (Nat.le_refl _) fun p hp => ?_
      exact mem_without.trans (and_iff_left fun h => heq (h.symm.trans hp))
  | @dismissed q hq hpassed =>
    by_cases heq : q.serial = r.serial
    · cases h with
      | alive hr fires hfires hcalls =>
        obtain rfl := hg.eq_of_serial_eq hr hq heq
        rw [hcalls] at hpassed
        refine .gone (fun p hp => (mem_without.mp hp).2) hlt ⟨fires, hfires, .inl ⟨?_, hpassed⟩⟩
        rw [calls_record_self, calls_record_self, List.append_assoc]
        exact congrArg (fun calls => calls ++ [TriggerCall.remove, .close]) hcalls
      | gone hr hlt hcalls => exact absurd heq (hr q hq)
    · refine h.of_others ?_ (Nat.le_refl _) fun p hp => ?_
      · rw [calls_record_of_ne heq, calls_record_of_ne heq]
        rfl
      · exact mem_without.trans (and_iff_left fun h => heq (h.symm.trans hp))

end Tracks

/-- A trigger that is registered has been told so, and nothing else. -/
theorem tracks_registered (hg : g.Sound) (t : Trigger) :
    Tracks { g.introduce t with registrations := g.registrations ++ [⟨g.nextSerial, t⟩] }
      ⟨g.nextSerial, t⟩ := by
  refine .alive (List.mem_append_right _ List.mem_cons_self) [] nofun ?_
  have hnone : g.calls g.nextSerial = [] := hg.calls_eq_nil (Nat.le_refl _)
  refine (calls_record_self _ ⟨g.nextSerial, t⟩ .init).trans ?_
  exact congrArg (fun calls => calls ++ [TriggerCall.init]) hnone

theorem run_sound (h : ReflTransGen Step g g') (hg : g.Sound) : g'.Sound := by
  induction h with
  | refl => exact hg
  | tail _ hstep ih => exact hstep.sound ih

theorem Tracks.run (h : g.Tracks r) (hg : g.Sound) (hrun : ReflTransGen Step g g') :
    g'.Tracks r := by
  induction hrun with
  | refl => exact h
  | tail hrun hstep ih => exact ih.step (run_sound hrun hg) hstep

/-! ## The end -/

/-- All registered triggers are closed. -/
def close (g : Registry) : Registry :=
  { g with
    registrations := []
    trace := g.trace ++ g.registrations.map fun r => ⟨r.serial, r.definition.name, .close⟩ }

theorem calls_close (g : Registry) (k : Nat) : g.close.calls k =
    g.calls k ++ List.replicate ((g.registrations.map Registration.serial).count k) .close := by
  unfold calls close
  rw [List.filter_append, List.map_append]
  congr 1
  induction g.registrations with
  | nil => rfl
  | cons r rs ih =>
    rw [List.map_cons, List.map_cons, List.filter_cons, List.count_cons]
    by_cases h : r.serial = k
    · simp only [h, beq_self_eq_true, if_true, List.map_cons, ih, List.replicate_succ]
    · simp only [beq_false_of_ne h, Bool.false_eq_true, if_false, ih, Nat.add_zero]

end Registry

/-- All calls of a trigger, from its registration on: it fires, and in the end it is closed. If it was
removed before, it is closed at once, unless it failed its removal: then it never is. -/
def Trigger.Released (t : Trigger) (calls : List TriggerCall) : Prop :=
  (∃ fires : List TriggerCall, (∀ c ∈ fires, c.IsFire) ∧ calls = .init :: fires ++ [.close]) ∨
    Registry.Removed t calls

theorem Registry.Tracks.released {g : Registry} {r : Registration} (h : g.Tracks r) (hg : g.Sound) :
    r.trigger.Released (g.close.calls r.serial) := by
  rw [Registry.calls_close]
  cases h with
  | alive hr fires hfires hcalls =>
    have hone : (g.registrations.map Registration.serial).count r.serial = 1 :=
      List.count_eq_one_of_mem hg.nodup (List.mem_map_of_mem hr)
    rw [hone, hcalls]
    exact .inl ⟨fires, hfires, rfl⟩
  | gone hr hlt hcalls =>
    have hnone : (g.registrations.map Registration.serial).count r.serial = 0 := by
      refine List.count_eq_zero.mpr fun hmem => ?_
      obtain ⟨q, hq, heq⟩ := List.mem_map.mp hmem
      exact hr q hq heq
    rw [hnone, List.replicate_zero, List.append_nil]
    exact .inr hcalls

end SqlStore
