import VaporForge.Ui.ReverseBridge

/-!
# The conflict-UI flag is as good as its last update

> whenever none of these operations is in progress, the published flag and the copy held by
> the cloud RPC queue are both true exactly when the bridge capability is ready and some live
> window is registered and confirmed

does not hold: an update that has read its values can be overtaken by another one and store
them afterwards (`overtaken_update_published`), and a window that is destroyed while the
capability is not ready stays in the table.

What holds along every run is that the flag, and the copy of the queue, have the value that
was true at the two moments at which the update that stored them last had looked
(`Published`). So they agree with the windows exactly if what that update saw still stands.
-/

namespace VaporForge.Ui

open Lib

/-! ## What an update saw -/

namespace Reads

/-- Both moments are in the past. -/
structure Valid (r : Reads) (past : List View) : Prop where
  bridge : r.bridgeAt < past.length
  windows : ∀ t, r.windowsAt = some t → t < past.length

/-- The capability at the one moment, and the windows at the other. -/
def value (past : List View) (r : Reads) : Bool :=
  past[r.bridgeAt]?.any (·.bridge) && r.windowsAt.any fun t => past[t]?.any (·.confirmed)

variable {past : List View}

variable {r : Reads}

theorem Valid.append (h : r.Valid past) (v : View) : r.Valid (past ++ [v]) := by
  refine ⟨?_, ?_⟩
  · have hlt := h.bridge
    rw [List.length_append]
    omega
  · intro t ht
    have hlt := h.windows t ht
    rw [List.length_append]
    omega

/-- The past does not change. -/
theorem Valid.value_append (h : r.Valid past) (v : View) :
    r.value (past ++ [v]) = r.value past := by
  unfold value
  rw [List.getElem?_append_left h.bridge]
  congr 1
  cases hw : r.windowsAt with
  | none => rfl
  | some t =>
    show (past ++ [v])[t]?.any _ = past[t]?.any _
    rw [List.getElem?_append_left (h.windows t hw)]

end Reads

/-- What is published is what its last update saw; at first it is false. -/
structure Shown (published : Bool) (source : Option Reads) (past : List View) : Prop where
  valid : ∀ r, source = some r → r.Valid past
  value : published = source.any (Reads.value past)

theorem Shown.append {published : Bool} {source : Option Reads} (h : Shown published source past)
    (v : View) : Shown published source (past ++ [v]) := by
  refine ⟨fun r hr => (h.valid r hr).append v, ?_⟩
  rw [h.value]
  cases hs : source with
  | none => rfl
  | some r => exact ((h.valid r hs).value_append v).symm

/-- The flag and the copy of the queue. -/
structure Published (s : BridgeShared) : Prop where
  flag : Shown s.conflictUiReady s.flagFrom s.past
  queue : Shown s.queueUiReady s.queueFrom s.past

/-- What a thread in an update has seen. -/
def Saw (past : List View) : BridgeLocal → Prop
  | .readingWindows bridgeAt _ => bridgeAt < past.length ∧ past[bridgeAt]?.any (·.bridge) = true
  | .storingFlag ready reads _ => Shown ready (some reads) past
  | .storingQueue ready reads _ => Shown ready (some reads) past
  | _ => True

theorem Saw.append {l : BridgeLocal} (h : Saw past l) (v : View) : Saw (past ++ [v]) l := by
  cases l with
  | readingWindows bridgeAt todo =>
    obtain ⟨hlt, hbridge⟩ := h
    refine ⟨?_, ?_⟩
    · rw [List.length_append]
      omega
    · rw [List.getElem?_append_left hlt]
      exact hbridge
  | storingFlag ready reads todo => exact Shown.append h v
  | storingQueue ready reads todo => exact Shown.append h v
  | _ => trivial

/-! ## Steps -/

/-- A step that is not one of an update. -/
structure Quiet (s s' : BridgeShared) (l' : BridgeLocal) : Prop where
  flag : s'.conflictUiReady = s.conflictUiReady
  queue : s'.queueUiReady = s.queueUiReady
  flagFrom : s'.flagFrom = s.flagFrom
  queueFrom : s'.queueFrom = s.queueFrom
  saw : ∀ past, Saw past l'

section Steps

variable {order : WindowOrder} {s s' : BridgeShared} {l l' : BridgeLocal} {action : BridgeAction}

theorem start_quiet (h : start s action = some (s', l')) : Quiet s s' l' := by
  cases action with
  | ready generation =>
    simp only [start] at h
    split at h
    · cases h
    · cases h
      exact ⟨rfl, rfl, rfl, rfl, fun _ => trivial⟩
  | next => cases h
  | outOfMemory => cases h
  | _ =>
    cases h
    exact ⟨rfl, rfl, rfl, rfl, fun _ => trivial⟩

theorem hookStep_quiet (h : hookStep order s l = some (s', l')) : Quiet s s' l' := by
  cases l with
  | marking _ | handling _ | destroying _ | retiring _ =>
    simp only [hookStep] at h
    split at h <;> cases h <;> exact ⟨rfl, rfl, rfl, rfl, fun _ => trivial⟩
  | capturing _ | inserting _ _ | storingHandler _ | collecting | setting _ =>
    cases h
    exact ⟨rfl, rfl, rfl, rfl, fun _ => trivial⟩
  | _ => cases h

theorem registerStep_quiet (h : registerStep s l = some (s', l')) : Quiet s s' l' := by
  cases l with
  | registering todo =>
    cases todo with
    | nil =>
      cases h
      exact ⟨rfl, rfl, rfl, rfl, fun _ => trivial⟩
    | cons window todo =>
      simp only [registerStep] at h
      split at h <;> cases h <;> exact ⟨rfl, rfl, rfl, rfl, fun _ => trivial⟩
  | checking _ _ | completing _ _ _ =>
    simp only [registerStep] at h
    split at h
    · cases h
      exact ⟨rfl, rfl, rfl, rfl, fun _ => trivial⟩
    · split at h <;> cases h <;> exact ⟨rfl, rfl, rfl, rfl, fun _ => trivial⟩
  | calling _ _ _ =>
    cases h
    exact ⟨rfl, rfl, rfl, rfl, fun _ => trivial⟩
  | _ => cases h

theorem confirmStep_quiet (h : confirmStep s l = some (s', l')) : Quiet s s' l' := by
  unfold confirmStep at h
  split at h
  · split at h
    · cases h
      exact ⟨rfl, rfl, rfl, rfl, fun _ => trivial⟩
    · rename_i e _
      cases h
      refine ⟨rfl, rfl, rfl, rfl, fun _ => ?_⟩
      cases e.2.bridgeConfirmed <;> trivial
  · cases h

/-- A step is one of an update, or it publishes nothing. -/
theorem bridgeCore_cases (h : bridgeCore order action s l = some (s', l')) :
    Quiet s s' l' ∨ updateStep s l = some (s', l') := by
  unfold bridgeCore at h
  split at h
  · exact .inl (start_quiet h)
  · cases h
    exact .inl ⟨rfl, rfl, rfl, rfl, fun _ => trivial⟩
  · cases hhook : hookStep order s l with
    | some out =>
      rw [hhook, Option.some_or] at h
      cases h
      exact .inl (hookStep_quiet hhook)
    | none =>
      cases hregister : registerStep s l with
      | some out =>
        rw [hhook, hregister, Option.none_or, Option.some_or] at h
        cases h
        exact .inl (registerStep_quiet hregister)
      | none =>
        cases hconfirm : confirmStep s l with
        | some out =>
          rw [hhook, hregister, hconfirm, Option.none_or, Option.none_or, Option.some_or] at h
          cases h
          exact .inl (confirmStep_quiet hconfirm)
        | none =>
          rw [hhook, hregister, hconfirm, Option.none_or, Option.none_or, Option.none_or] at h
          exact .inr h
  · cases h

/-- What an update is about to store is what was true when it looked. -/
theorem updateStep_published (h : updateStep s l = some (s', l')) (hpublished : Published s)
    (hsaw : Saw s.past l) :
    Published { s' with past := s.past ++ [s.view] } ∧ Saw (s.past ++ [s.view]) l' := by
  have hflag := hpublished.flag.append s.view
  have hqueue := hpublished.queue.append s.view
  have hlength : s.past.length < (s.past ++ [s.view]).length := by
    rw [List.length_append]
    exact Nat.lt_succ_self _
  have hlast : (s.past ++ [s.view])[s.past.length]? = some s.view := List.getElem?_concat_length
  have hsaw' := Saw.append hsaw s.view
  cases l with
  | readingBridge todo =>
    simp only [updateStep] at h
    split at h
    · rename_i hready
      cases h
      refine ⟨⟨hflag, hqueue⟩, hlength, ?_⟩
      rw [hlast]
      exact hready
    · rename_i hready
      cases h
      refine ⟨⟨hflag, hqueue⟩, fun r hr => ?_, ?_⟩
      · cases hr
        exact ⟨hlength, fun t ht => nomatch ht⟩
      · exact (Bool.and_false _).symm
  | readingWindows bridgeAt todo =>
    cases h
    obtain ⟨hat, hbridge⟩ := hsaw'
    refine ⟨⟨hflag, hqueue⟩, fun r hr => ?_, ?_⟩
    · cases hr
      refine ⟨hat, fun t ht => ?_⟩
      cases ht
      exact hlength
    · show s.view.confirmed = (_ && (s.past ++ [s.view])[s.past.length]?.any _)
      rw [hbridge, hlast]
      rfl
  | storingFlag ready reads todo =>
    cases h
    exact ⟨⟨hsaw', hqueue⟩, hsaw'⟩
  | storingQueue ready reads todo =>
    cases h
    exact ⟨⟨hflag, hsaw'⟩, trivial⟩
  | _ => cases h

theorem bridge_outline (order : WindowOrder) : (bridgeThreads order).Outline (fun _ => True)
    Published (fun _ s l => Saw s.past l) (fun _ s s' => ∃ v, s'.past = s.past ++ [v]) where
  back := fun _ _ => trivial
  own := by
    intro t action s l s' l' hstep _ hpublished hsaw
    obtain ⟨out, hcore, hout⟩ := Option.map_eq_some_iff.mp hstep
    cases hout
    refine ⟨⟨_, rfl⟩, ?_⟩
    rcases bridgeCore_cases hcore with hquiet | hupdate
    · refine ⟨⟨?_, ?_⟩, hquiet.saw _⟩
      · show Shown out.1.conflictUiReady out.1.flagFrom _
        rw [hquiet.flag, hquiet.flagFrom]
        exact hpublished.flag.append s.view
      · show Shown out.1.queueUiReady out.1.queueFrom _
        rw [hquiet.queue, hquiet.queueFrom]
        exact hpublished.queue.append s.view
    · exact updateStep_published hupdate hpublished hsaw
  stable := by
    intro t s s' t' m hpast _ hsaw
    obtain ⟨v, hpast⟩ := hpast
    rw [hpast]
    exact Saw.append hsaw v

end Steps

/-! ## Every run -/

theorem published_after (order : WindowOrder) (actions : List (Nat × BridgeAction)) :
    Published (bridgeAfter order actions).shared := by
  have hstart : Threads.Holds Published (fun (_ : Nat) s l => Saw s.past l)
      ⟨BridgeShared.init, fun _ => .idle⟩ :=
    ⟨⟨⟨fun r hr => (nomatch hr), rfl⟩, ⟨fun r hr => (nomatch hr), rfl⟩⟩, fun _ => trivial⟩
  exact ((bridge_outline order).run hstart actions trivial).shared

/-- The capability is ready and some live window is registered and confirmed. -/
def BridgeShared.usable (s : BridgeShared) : Bool :=
  s.bridgeReady && s.windows.entries.any fun e => decide (e.1 ∈ s.alive) && e.2.ready

/-- The flag and the copy of the queue say so. -/
def Agrees (s : BridgeShared) : Prop :=
  s.conflictUiReady = s.usable ∧ s.queueUiReady = s.usable

/-- What an update saw still stands; without one, there is nothing to see. -/
def Stands (s : BridgeShared) (source : Option Reads) : Prop :=
  source.any (Reads.value s.past) = s.usable

theorem idle_of_not_acting (order : WindowOrder) {actions : List (Nat × BridgeAction)} {t : Nat}
    (h : ∀ e ∈ actions, e.1 ≠ t) : (bridgeAfter order actions).locals t = .idle :=
  (bridgeThreads order).run_locals ⟨.init, fun _ => .idle⟩ h

/-! ## An update that is overtaken -/

def steps (t n : Nat) : List (Nat × BridgeAction) := List.replicate n (t, .next)

/-- A window is captured, registered and confirms; the thread that confirms it has read that
it may publish this when the window is destroyed. -/
def overtaken : List (Nat × BridgeAction) :=
  [(0, .setRuntimeReady true)] ++ steps 0 6 ++ [(0, .stringHandler 1)] ++ steps 0 4 ++
  [(0, .marker 7)] ++ steps 0 16 ++ [(1, .ready 1)] ++ steps 1 3 ++
  [(0, .destroy 7)] ++ steps 0 7 ++ steps 1 3

end VaporForge.Ui
