/- Whether a device whose `app_main` has returned still has a way on: it has one in every state
   but those after a failed download, which it leaves only when the power is cut. -/
import Ddsu666.BootModes

namespace Ddsu666

/-- The device can be commanded, is being provisioned, is downloading, or is about to restart. -/
def Alive (s : BootState) : Prop :=
  s.ram.clientStarted = true ∨ s.ram.smartconfig = true ∨ s.ram.ota = .downloading ∨
    s.ram.restarting = true

instance (s : BootState) : Decidable (Alive s) := inferInstanceAs (Decidable (_ ∨ _ ∨ _ ∨ _))

/-- The labels of the present boot. -/
def sinceBoot : List BootLabel → List BootLabel :=
  List.foldl (fun labels a => if a = .boot then [] else labels ++ [a]) []

theorem sinceBoot_snoc (tr : List BootLabel) (a : BootLabel) :
    sinceBoot (tr ++ [a]) = if a = .boot then [] else sinceBoot tr ++ [a] := by
  rw [sinceBoot, List.foldl_append]
  rfl

/-- Only a failed call lets the task of ota.c fail, and only a boot ends that. -/
theorem ota_cases {s t : BootState} {a : BootLabel} (m : BootMode s) (h : bootStep s a = some t) :
    (a = .boot ∧ t.ram.ota = .absent) ∨ (a = .otaReturns false ∧ t.ram.ota = .failed) ∨
      (a ≠ .boot ∧ a ≠ .otaReturns false ∧ (t.ram.ota = .failed ↔ s.ram.ota = .failed)) := by
  by_cases hboot : a = .boot
  · subst hboot
    rw [bootStep_boot] at h
    obtain rfl := Option.some.inj h
    exact .inl ⟨rfl, rfl⟩
  by_cases hreturn : ∃ ok, a = .otaReturns ok
  · obtain ⟨ok, rfl⟩ := hreturn
    have hstep := (bootStep_running h hboot).2
    obtain ⟨hdown, rfl⟩ := Runs.enabled hstep
    cases ok with
    | false => exact .inr (.inl ⟨rfl, rfl⟩)
    | true => exact .inr (.inr ⟨hboot, by decide, Iff.rfl⟩)
  · rw [not_exists] at hreturn
    refine .inr (.inr ⟨hboot, hreturn false, ?_⟩)
    rcases flash_cases h with ⟨-, -, -, rfl⟩ | ⟨-, -, rfl⟩ | ⟨-, hpc, rfl⟩ | ⟨-, -, -, -, hota⟩
    · exact Iff.rfl
    · exact Iff.rfl
    · have habsent : s.ram.ota = .absent := (m.otaStart hpc).quiet.ota
      rw [habsent]
      exact iff_of_false (by simp) (by simp)
    · rw [hota hboot hreturn]

theorem failed_iff {tag : Bool} {tr : List BootLabel} {s : BootState}
    (h : BootRun (firstBoot tag) tr s) :
    s.ram.ota = .failed ↔ .otaReturns false ∈ sinceBoot tr := by
  refine Runs.history_invariant
    (P := fun as t => t.ram.ota = .failed ↔ .otaReturns false ∈ sinceBoot as) ?_ ?_ tr s h
  · simp [firstBoot, bootRam, sinceBoot]
  · intro as t a u hrun hinv hstep
    rw [sinceBoot_snoc]
    rcases ota_cases (bootMode_reached ⟨as, hrun⟩) hstep with ⟨rfl, hota⟩ | ⟨rfl, hota⟩ |
      ⟨hboot, hother, hota⟩
    · simp [hota]
    · simp [hota]
    · rw [if_neg hboot, hota, hinv, List.mem_append, List.mem_singleton]
      simp [Ne.symm hother]

theorem updating_alive_iff {s : BootState} (m : Updating s) :
    Alive s ↔ s.ram.ota ≠ .failed := by
  constructor
  · intro alive failed
    simp [Alive, m.clientStarted, m.smartconfig, failed, m.failed failed] at alive
  · intro fine
    cases hota : s.ram.ota with
    | absent => exact absurd hota m.ota
    | downloading => exact .inr (.inr (.inl hota))
    | failed => exact absurd hota fine

/-- Once `app_main` has returned, the device has a way on exactly if no call of `esp_https_ota`
has failed since the last boot. -/
theorem alive_iff_no_failed_download {tag : Bool} {tr : List BootLabel} {s : BootState}
    (h : BootRun (firstBoot tag) tr s) (returned : s.ram.main = .returned) :
    Alive s ↔ .otaReturns false ∉ sinceBoot tr := by
  rw [← not_congr (failed_iff h)]
  rcases (bootMode_reached ⟨tr, h⟩).returned returned with m | m | m
  · have hota : s.ram.ota ≠ .failed := by rw [m.ota]; decide
    exact iff_of_true (.inr (.inl m.smartconfig)) hota
  · have hota : s.ram.ota ≠ .failed := by rw [m.ota]; decide
    have hclient : s.ram.clientStarted = true := by
      rcases m.main with ⟨hpc, -⟩ | ⟨-, hclient⟩
      · rw [returned] at hpc
        cases hpc
      · exact hclient
    exact iff_of_true (.inl hclient) hota
  · exact updating_alive_iff m

theorem alive_without_tag :
    ∃ s, BootRun (firstBoot false) [.wifi true, .main, .main, .main] s ∧
      (Alive s ↔ .otaReturns false ∉ sinceBoot [.wifi true, .main, .main, .main]) := by
  have hrun : ∃ s, BootRun (firstBoot false) [.wifi true, .main, .main, .main] s ∧
      s.ram.main = .returned := ⟨_, rfl, rfl⟩
  obtain ⟨s, hs, hreturned⟩ := hrun
  exact ⟨s, hs, alive_iff_no_failed_download hs hreturned⟩

/-- A boot with a tag whose download fails. -/
def failedUpdate : List BootLabel := .wifi true :: List.replicate 7 .main ++ [.otaReturns false]

theorem failed_download_dead :
    ¬ ∀ tag tr s, BootRun (firstBoot tag) tr s → s.ram.main = .returned → Alive s := by
  intro claim
  have hrun : ∃ s, BootRun (firstBoot true) failedUpdate s ∧ s.ram.main = .returned ∧ ¬ Alive s :=
    ⟨_, rfl, rfl, by decide⟩
  obtain ⟨s, hs, hreturned, hdead⟩ := hrun
  exact hdead (claim true failedUpdate s hs hreturned)

end Ddsu666
