/- The tag file of an update across boots: an update command always finds it absent, no download
   starts without a tag created for it, and a boot without a connection keeps it. -/
import Ddsu666.BootModes

namespace Ddsu666

/-- Downloads started, a tag that is still there, and a tag just removed for a download. -/
def spent (s : BootState) : ℕ :=
  s.downloads + s.tag.toNat + if s.ram.main = .otaStart then 1 else 0

/-- Where the tag is removed it is there, so a removal passes its credit on to the download. -/
theorem spent_step {s t : BootState} {a : BootLabel} (m : BootMode s) (h : spent s ≤ s.created)
    (hstep : bootStep s a = some t) : spent t ≤ t.created := by
  rcases flash_cases hstep with ⟨-, htest, htag, rfl⟩ | ⟨-, hpc, rfl⟩ | ⟨-, hpc, rfl⟩ |
    ⟨htag, hcreated, hdown, hnext, -⟩
  · simp only [spent, htag, Bool.toNat_false, Bool.toNat_true] at h ⊢
    omega
  · simp only [spent, m.removeTag hpc, hpc, Bool.toNat_true, Bool.toNat_false, if_true,
      reduceCtorEq, if_false] at h ⊢
    omega
  · simp only [spent, hpc, if_true, reduceCtorEq, if_false] at h ⊢
    omega
  · simp only [spent, htag, hcreated, hdown] at h ⊢
    by_cases hpc : t.ram.main = .otaStart
    · rw [if_pos (hnext hpc)] at h
      rwa [if_pos hpc]
    · rw [if_neg hpc]
      omega

theorem spent_reached {tag : Bool} {s : BootState}
    (h : Runs.Reaches bootStep (firstBoot tag) s) : spent s ≤ s.created := by
  refine (Runs.invariant (P := fun t => BootMode t ∧ spent t ≤ t.created) ?_ ?_ h).2
  · refine ⟨bootMode_boot .., ?_⟩
    simp [spent, firstBoot, bootRam]
  · intro t a u m hstep
    exact ⟨m.1.step hstep, spent_step m.1 m.2 hstep⟩

/-- Before the result of the connection, or without one, the tag stays where it is. -/
structure Keeping (s : BootState) : Prop where
  tag : s.tag = true
  mode : Connecting s ∨ Provisioning s

theorem Keeping.step {s t : BootState} {a : BootLabel} (k : Keeping s)
    (hstep : bootStep s a = some t) (offline : a ≠ .wifi true) : Keeping t := by
  by_cases other : a = .boot
  · subst other
    rw [bootStep_boot] at hstep
    obtain rfl := Option.some.inj hstep
    exact ⟨k.tag, .inl ⟨quiet_boot, .inl ⟨rfl, rfl⟩⟩⟩
  have hmode : Connecting t ∨ Provisioning t := by
    rcases k.mode with m | m
    · rcases m.step hstep other with hc | ⟨hwifi, -⟩ | hp
      · exact .inl hc
      · exact absurd hwifi offline
      · exact .inr hp
    · exact .inr (m.step hstep other)
  refine ⟨?_, hmode⟩
  have hidle : s.ram.handler = .idle := by
    rcases k.mode with m | m
    · exact m.quiet.handler
    · exact m.handler
  have hpc : s.ram.main ≠ .removeTag := by
    rcases k.mode with m | m
    all_goals
      intro hpc
      have hmain := m.main
      simp [hpc] at hmain
  rcases flash_cases hstep with ⟨-, htest, -⟩ | ⟨-, hpc', -⟩ | ⟨-, -, rfl⟩ | ⟨htag, -⟩
  · rw [hidle] at htest
    cases htest
  · exact absurd hpc' hpc
  · exact k.tag
  · exact htag.trans k.tag

/-- The way of an update within its boot; the count goes up where the task is created. -/
inductive OnUpdate (before : ℕ) (s : BootState) : Prop where
  | undecided (m : Undecided s) (tag : s.tag = true) (same : s.downloads = before)
  | preparing (m : Preparing s) (same : s.downloads = before)
  | updating (m : Updating s) (started : s.downloads = before + 1)

theorem OnUpdate.step {before : ℕ} {s t : BootState} {a : BootLabel} (u : OnUpdate before s)
    (hstep : bootStep s a = some t) (other : a ≠ .boot) : OnUpdate before t := by
  cases u with
  | undecided m tag same =>
      obtain ⟨hdown, ⟨-, hp⟩ | ⟨absent, -⟩⟩ := m.step hstep other
      · exact .preparing hp (hdown.trans same)
      · rw [tag] at absent
        cases absent
  | preparing m same =>
      rcases m.step hstep other with ⟨hp, hdown⟩ | ⟨hu, hdown⟩
      · exact .preparing hp (hdown.trans same)
      · exact .updating hu (by rw [hdown, same])
  | updating m started =>
      refine .updating (m.step hstep other) ?_
      rcases flash_cases hstep with ⟨-, -, -, rfl⟩ | ⟨-, -, rfl⟩ | ⟨-, hpc, -⟩ | ⟨-, -, hdown, -⟩
      · exact started
      · exact started
      · have hmain := m.main
        simp [hpc] at hmain
      · exact hdown.trans started

theorem OnUpdate.run {before : ℕ} {s t : BootState} {tr : List BootLabel} (u : OnUpdate before s)
    (hrun : BootRun s tr t) (uncut : .boot ∉ tr) : OnUpdate before t := by
  induction tr generalizing s with
  | nil =>
      obtain rfl := Option.some.inj hrun
      exact u
  | cons a tr ih =>
      obtain ⟨v, hstep, hrest⟩ := Runs.run_cons_some.mp hrun
      rw [List.mem_cons, not_or] at uncut
      exact ih (u.step hstep (Ne.symm uncut.1)) hrest uncut.2

theorem Keeping.run {s t : BootState} {tr : List BootLabel} (k : Keeping s) (hrun : BootRun s tr t)
    (offline : .wifi true ∉ tr) : Keeping t := by
  induction tr generalizing s with
  | nil =>
      obtain rfl := Option.some.inj hrun
      exact k
  | cons a tr ih =>
      obtain ⟨v, hstep, hrest⟩ := Runs.run_cons_some.mp hrun
      rw [List.mem_cons, not_or] at offline
      exact ih (k.step hstep (Ne.symm offline.1)) hrest offline.2

theorem onUpdate_wifi {s t : BootState} (m : Connecting s) (tag : s.tag = true)
    (hstep : bootStep s (.wifi true) = some t) : OnUpdate s.downloads t := by
  rcases quiet_step m.quiet hstep (by decide) with ⟨hmain, -⟩ | ⟨connected, hlabel, hpc, rfl⟩
  · cases hmain
  · obtain rfl := BootLabel.wifi.inj hlabel
    have hstart : s.ram.isStartMqtt = true := by
      rcases m.main with ⟨-, hstart⟩ | ⟨-, hpc' | hpc'⟩ | ⟨-, hpc', -⟩
      · exact hstart
      all_goals rw [hpc] at hpc'; cases hpc'
    exact .undecided ⟨m.quiet.congr rfl rfl rfl rfl rfl rfl, rfl, rfl, hstart⟩ tag rfl

/-- Left to itself, `app_main` gets from the connection to its end. -/
theorem update_completes {s : BootState} (m : Connecting s) (hpc : s.ram.main = .wifiInit)
    (tag : s.tag = true) :
    ∃ t, BootRun s (.wifi true :: List.replicate 7 .main) t ∧ t.ram.main = .returned := by
  rcases s with ⟨⟨main, wifiOk, isStartMqtt, loop, clientStarted, handler, count, smartconfig, ota,
    uart, restarting⟩, present, created, downloads⟩
  obtain rfl : main = .wifiInit := hpc
  obtain rfl : present = true := tag
  obtain rfl : restarting = false := m.quiet.restarting
  exact ⟨_, rfl, rfl⟩

theorem tagTest_writes {s : BootState} (htest : s.ram.handler = .tagTest) (absent : s.tag = false)
    (running : s.ram.restarting = false) :
    bootStep s .handler = some { s with
      ram := { s.ram with handler := .tagWritten }, tag := true, created := s.created + 1 } := by
  simp [bootStep, running, runningStep, handlerPcStep, htest, absent]

theorem tagWritten_restarts {s : BootState} (written : s.ram.handler = .tagWritten)
    (running : s.ram.restarting = false) :
    bootStep s .handler = some { s with ram := s.ram.espRestart } := by
  simp [bootStep, running, runningStep, handlerPcStep, written]

/-- So the handler itself, on an update command in any state, writes the tag and restarts. -/
theorem update_command_restarts {F : Type} [FloatArith F] {P : Platform F}
    (granted : ∀ n, P.grants n = true) {tag : Bool} {s : BootState} {w : World F} {m : Message}
    (h : Runs.Reaches bootStep (firstBoot tag) s) (agrees : Agrees s w)
    (started : s.ram.clientStarted = true) (idle : s.ram.handler = .idle)
    (command : commandOf m.topicText m.dataText = some .otaUpdate) :
    ∃ w', mqttEventHandler P (.data m) w = .error w' ∧ w'.device.otaTag = true := by
  have habsent : s.tag = false := by
    apply ((bootMode_reached h).client started).tag
    rw [idle]
    decide
  have hdispatch : dispatch P m.topicText m.dataText w.device =
      .error { w.device with otaTag := true } := by
    simp [dispatch, command, Command.effect, agrees.tag, agrees.canWriteTag, habsent]
  obtain ⟨w', hrestart, hdevice, -⟩ := message_restarts granted hdispatch
  exact ⟨w', hrestart, by rw [hdevice]⟩

/-- In every state reached, whatever the boots before: an event meets no tag; an update command
that the client may handle is handled, and its handler can always go on, first to write the tag
and then to restart; no more downloads were started than tags created; and a tag survives any
number of boots without a connection, until in the next boot with one the download is started. -/
theorem ota_tag_across_boots {tag : Bool} {s : BootState}
    (h : Runs.Reaches bootStep (firstBoot tag) s) :
    (∀ e t, bootStep s (.mqtt e) = some t → s.tag = false) ∧
    (∀ m, commandOf m.topicText m.dataText = some .otaUpdate →
      (s.ram.clientStarted = true → s.ram.handler = .idle → s.ram.restarting = false →
        ∃ t, bootStep s (.mqtt (.data m)) = some t) ∧
      ∀ t, bootStep s (.mqtt (.data m)) = some t → t.ram.handler = .tagTest) ∧
    (s.ram.handler = .tagTest → ∃ t, bootStep s .handler = some t ∧
      t.tag = true ∧ t.created = s.created + 1 ∧ t.ram.handler = .tagWritten ∧
        ∃ u, bootStep t .handler = some u ∧ u.tag = true ∧ u.ram.restarting = true) ∧
    (s.ram.handler = .tagWritten → s.tag = true ∧
      (s.ram.restarting = true ∨ ∃ t, bootStep s .handler = some t ∧ t.ram.restarting = true)) ∧
    s.downloads ≤ s.created ∧
    (s.tag = true → s.ram.main = .wifiInit →
      (∀ tr t, BootRun s tr t → .wifi true ∉ tr → t.tag = true) ∧
      (∀ tr t, BootRun s (.wifi true :: tr) t → .boot ∉ tr → t.ram.main = .returned →
        t.downloads = s.downloads + 1) ∧
      ∃ t, BootRun s (.wifi true :: List.replicate 7 .main) t ∧ t.ram.main = .returned) := by
  have hmode := bootMode_reached h
  have hspent := spent_reached h
  refine ⟨?_, ?_, ?_, ?_, ?_, ?_⟩
  · intro e t hstep
    have hready := (bootStep_running hstep (by simp)).2
    obtain ⟨hclient, -⟩ := Runs.enabled hready
    apply (hmode.client hclient.1).tag
    rw [hclient.2]
    decide
  · intro m hcommand
    refine ⟨fun started idle running => ⟨_, bootStep_mqtt started idle running _⟩, ?_⟩
    intro t hstep
    have hready := (bootStep_running hstep (by simp)).2
    simp only [runningStep, mqttEvent, hcommand] at hready
    split at hready
    · obtain rfl := Option.some.inj hready
      rfl
    · cases hready
  · intro htest
    have hserving := hmode.handling (by rw [htest]; decide)
    have hrunning := hserving.testing htest
    have habsent : s.tag = false := hserving.tag (by rw [htest]; decide)
    exact ⟨_, tagTest_writes htest habsent hrunning, rfl, rfl, rfl, _,
      tagWritten_restarts rfl hrunning, rfl, rfl⟩
  · intro hwritten
    refine ⟨(hmode.handling (by rw [hwritten]; decide)).written hwritten, ?_⟩
    cases hrunning : s.ram.restarting with
    | true => exact .inl rfl
    | false => exact .inr ⟨_, tagWritten_restarts hwritten hrunning, rfl⟩
  · rw [spent] at hspent
    omega
  · intro htag hpc
    have hconnecting := hmode.wifiInit hpc
    refine ⟨?_, ?_, update_completes hconnecting hpc htag⟩
    · intro tr t hrun offline
      exact (Keeping.run ⟨htag, .inl hconnecting⟩ hrun offline).tag
    · intro tr t hrun uncut hreturned
      obtain ⟨u, hstep, hrest⟩ := Runs.run_cons_some.mp hrun
      have hon := (onUpdate_wifi hconnecting htag hstep).run hrest uncut
      cases hon with
      | updating m started => exact started
      | undecided m _ _ =>
          have hmain := m.main
          simp [hreturned] at hmain
      | preparing m _ =>
          have hmain := m.main
          simp [hreturned] at hmain

/-- A tag that is there at a boot is kept without a connection, and used up with one; an update
command after a boot without a tag writes one and restarts. -/
theorem tag_at_boot_used :
    (∃ t, BootRun (firstBoot true) [.wifi false, .main, .main, .main, .main, .boot] t ∧
      t.tag = true) ∧
    (∃ t, BootRun (firstBoot true) (.wifi true :: List.replicate 7 .main) t ∧
      t.downloads = (firstBoot true).downloads + 1) ∧
    ∃ t, BootRun (firstBoot false) [.wifi true, .main, .main,
        .mqtt (.data (.ofStrings "sysop-set" "ota_update")), .handler, .handler] t ∧
      t.tag = true ∧ t.ram.restarting = true := by
  obtain ⟨-, -, -, -, -, hkept⟩ := ota_tag_across_boots (Runs.Reaches.refl (firstBoot true))
  obtain ⟨hsafe, hused, t, hrun, hreturned⟩ := hkept rfl rfl
  have hoffline : BootRun (firstBoot true)
      [.wifi false, .main, .main, .main, .main, .boot] (firstBoot true) := rfl
  refine ⟨⟨_, hoffline, hsafe _ _ hoffline (by decide)⟩,
    ⟨t, hrun, hused _ t hrun (by decide) hreturned⟩, ?_⟩
  obtain ⟨served, hserved, hclient, hidle, hrunning⟩ : ∃ u,
      BootRun (firstBoot false) [.wifi true, .main, .main] u ∧ u.ram.clientStarted = true ∧
        u.ram.handler = .idle ∧ u.ram.restarting = false :=
    ⟨_, rfl, rfl, rfl, rfl⟩
  have hcommand : commandOf (Message.ofStrings "sysop-set" "ota_update").topicText
      (Message.ofStrings "sysop-set" "ota_update").dataText = some .otaUpdate := by
    rw [topicText_ofStrings, dataText_ofStrings, commandOf, if_pos rfl]
    exact spelled_eq_some.mpr rfl
  obtain ⟨-, hupdate, -⟩ := ota_tag_across_boots ⟨_, hserved⟩
  obtain ⟨hhandled, htest⟩ := hupdate _ hcommand
  obtain ⟨s, hmessage⟩ := hhandled hclient hidle hrunning
  have hreached : BootRun (firstBoot false) [.wifi true, .main, .main,
      .mqtt (.data (.ofStrings "sysop-set" "ota_update"))] s :=
    Runs.run_append_some.mpr ⟨served, hserved, Runs.run_cons_some.mpr ⟨s, hmessage, rfl⟩⟩
  obtain ⟨-, -, htagged, -⟩ := ota_tag_across_boots ⟨_, hreached⟩
  obtain ⟨t, hwrite, -, -, -, u, hrestart, htag, hrestarting⟩ := htagged (htest s hmessage)
  exact ⟨u, Runs.run_append_some.mpr ⟨s, hreached, Runs.run_cons_some.mpr
    ⟨t, hwrite, Runs.run_cons_some.mpr ⟨u, hrestart, rfl⟩⟩⟩, htag, hrestarting⟩

end Ddsu666
