/- The strings of one message: when each is used only while it is live, freed once, and freed
   before the handler returns. -/
import Ddsu666.CommandDispatch

namespace Ddsu666
open StringHeap

/-- The handler treats its strings properly exactly for messages under `sysop-set`. Under
`sysop-get` it compares a freed topic, and under any other topic it frees neither string. -/
theorem disciplined_iff_set {F : Type} [FloatArith F] {P : Platform F}
    (granted : ∀ n, P.grants n = true) {m : Message} {w w' : World F}
    (returned : mqttEventHandler P (.data m) w = .ok ((), w')) :
    w.heap.Disciplined w'.heap ↔ m.topicText = ofString "sysop-set" := by
  cases hdispatch : dispatch P m.topicText m.dataText w.device with
  | error d =>
      obtain ⟨_, hrestart, -⟩ := message_restarts granted hdispatch
      rw [hrestart] at returned
      cases returned
  | ok result =>
      obtain ⟨_, _, hreturn, -, -, -, hlive⟩ := message_returns granted hdispatch
      rw [hreturn] at returned
      cases returned
      exact hlive

theorem debug_message_disciplined :
    ∃ w', mqttEventHandler sampleBoard (.data (.ofStrings "sysop-set" "debug_mode"))
        (bootWorld sampleDevice []) = .ok ((), w') ∧
      ((bootWorld sampleDevice []).heap.Disciplined w'.heap ↔
        (Message.ofStrings "sysop-set" "debug_mode").topicText = ofString "sysop-set") := by
  have hspelled : spelled (ofString "debug_mode") = some .debugMode := spelled_eq_some.mpr rfl
  have hdispatch : dispatch sampleBoard (Message.ofStrings "sysop-set" "debug_mode").topicText
      (Message.ofStrings "sysop-set" "debug_mode").dataText sampleDevice =
        .ok (sampleDevice.debugSwitch, ofString "debug_mode on") := by
    rw [topicText_ofStrings, dataText_ofStrings, dispatch, commandOf, if_pos rfl, hspelled]
    rfl
  obtain ⟨w', _, hreturn, -⟩ :=
    message_returns (w := bootWorld sampleDevice []) (fun _ => rfl) hdispatch
  exact ⟨w', hreturn, disciplined_iff_set (fun _ => rfl) hreturn⟩

/-- A request for the readings compares the topic after freeing it. -/
theorem power_request_undisciplined :
    ¬ ∀ (P : Platform Float32) (m : Message) (w w' : World Float32), (∀ n, P.grants n = true) →
      mqttEventHandler P (.data m) w = .ok ((), w') → w.heap.Disciplined w'.heap := by
  intro claim
  have hdispatch := dispatch_get sampleBoard (ofString "info-power") sampleDevice
  rw [← topicText_ofStrings "sysop-get" "info-power",
    ← dataText_ofStrings "sysop-get" "info-power"] at hdispatch
  obtain ⟨w', _, hreturn, -, -, -, hlive⟩ :=
    message_returns (w := bootWorld sampleDevice []) (fun _ => rfl) hdispatch
  have hset := hlive.mp (claim _ _ _ w' (fun _ => rfl) hreturn)
  rw [topicText_ofStrings] at hset
  exact absurd hset (by decide)

end Ddsu666
