/- Scan codes from a board in `nec_tx` to a board in `nec_rx`, with transmissions that are given up
   in between. -/
import Ddsu666.NecReceive
import Ddsu666.NecSessions

namespace Ddsu666
open StagedEmission

/-- What is received of a transmission. Its last symbol can be anything, and the end of a
transmission that is given up may stay in the memory of the channel. -/
structure Heard (e : Encoded) (symbols : List Symbol) : Prop where
  length : symbols.length ≤ e.symbols.length
  whole : e.state.complete = true → symbols.length = e.symbols.length
  near : ∀ i, i + 1 < symbols.length → ∀ s t, symbols[i]? = some s → e.symbols[i]? = some t →
    Near s t

def completed (sent : List (IrNecScanCode × Encoded)) : List IrNecScanCode :=
  sent.filterMap fun p => if p.2.state.complete then some p.1 else none

/-- What is printed in some calls of `example_parse_nec_frame`. -/
def reports (stored : IrNecScanCode) : List (List Symbol) → List NecReport
  | [] => []
  | symbols :: calls =>
      let (stored, report) := exampleParseNecFrame symbols stored
      report.toList ++ reports stored calls

/-- A report of a code, be it a new one or a repeated one. -/
def NecReport.accepted : NecReport → Bool
  | .frame _ | .frameRepeat _ => true
  | .unknown _ => false

theorem frame_necFrame (code : IrNecScanCode) : necTxInit.frame code = necFrame code :=
  parts_flatten code

section Calls

variable {code : IrNecScanCode} {e : Encoded} {symbols : List Symbol}

theorem Heard.received (heard : Heard e symbols) (sent : Sent necTxInit code e)
    (complete : e.state.complete = true) : Received code symbols := by
  have hsent := (sent.complete complete).trans (frame_necFrame code)
  have hlength : symbols.length = 34 := by
    rw [heard.whole complete, hsent, length_necFrame]
  refine ⟨hlength, fun i hi s t hs ht => ?_⟩
  rw [← hsent] at ht
  exact heard.near i (by omega) s t hs ht

theorem exampleParseNecFrame_whole (heard : Heard e symbols) (sent : Sent necTxInit code e)
    (complete : e.state.complete = true) (stored : IrNecScanCode) :
    exampleParseNecFrame symbols stored = (code, some (.frame code)) := by
  have received := heard.received sent complete
  simp only [exampleParseNecFrame, received.length, if_true, necParseFrame_near received]

theorem leading_not_repeat {s : Symbol} (near : Near s ⟨9000, true, 4500, false⟩) :
    necParseFrameRepeat s = false := by
  rw [Bool.eq_false_iff, necParseFrameRepeat,
    Ne, checkSymbol_iff (t := ⟨9000, true, 2250, false⟩) rfl rfl (by decide) (by decide)]
  intro again
  have hleading := near.duration1
  have hrepeat := again.duration1
  have hlong : (⟨9000, true, 4500, false⟩ : Symbol).duration1.toNat = 4500 := rfl
  have hshort : (⟨9000, true, 2250, false⟩ : Symbol).duration1.toNat = 2250 := rfl
  omega

/-- Neither a frame nor a repeat is heard in a transmission that was given up. -/
theorem exampleParseNecFrame_part (heard : Heard e symbols) (sent : Sent necTxInit code e)
    (running : e.state.complete = false) (stored : IrNecScanCode) :
    (exampleParseNecFrame symbols stored).1 = stored ∧
      (exampleParseNecFrame symbols stored).2.toList.filter NecReport.accepted = [] := by
  obtain ⟨due, nonempty, hframe⟩ := sent.running running
  rw [frame_necFrame] at hframe
  have hshort : symbols.length < 34 := by
    have htotal := congrArg List.length hframe
    have hdue := List.length_pos_iff.mpr nonempty
    have hheard := heard.length
    rw [List.length_append, length_necFrame] at htotal
    omega
  unfold exampleParseNecFrame
  rw [if_neg (Nat.ne_of_lt hshort)]
  by_cases two : symbols.length = 2
  · obtain ⟨s, last, rfl⟩ := List.length_eq_two.mp two
    have hfirst : e.symbols[0]? = some ⟨9000, true, 4500, false⟩ := by
      have hsome : 0 < e.symbols.length := Nat.lt_of_lt_of_le Nat.zero_lt_two heard.length
      rw [← necFrame_leading code, ← hframe, List.getElem?_append_left hsome]
    have hnear := heard.near 0 Nat.one_lt_two s _ rfl hfirst
    simp [leading_not_repeat hnear]
  · rw [if_neg two]
    exact ⟨rfl, rfl⟩

end Calls

/-- One call for each transmission: a new code is stored and printed if it was sent to the end,
and otherwise nothing changes. -/
theorem heard_reports {sent : List (IrNecScanCode × Encoded)} {calls : List (List Symbol)}
    (whole : ∀ p ∈ sent, Sent necTxInit p.1 p.2)
    (heard : List.Forall₂ (fun p symbols => Heard p.2 symbols) sent calls)
    (stored : IrNecScanCode) :
    (reports stored calls).filter NecReport.accepted = (completed sent).map .frame ∧
      calls.foldl (fun stored symbols => (exampleParseNecFrame symbols stored).1) stored =
        (completed sent).getLastD stored := by
  induction heard generalizing stored with
  | nil => exact ⟨rfl, rfl⟩
  | @cons p symbols sent calls first later ih =>
      obtain ⟨code, e⟩ := p
      have hsent : Sent necTxInit code e := whole _ List.mem_cons_self
      have hlater := ih fun p hp => whole p (List.mem_cons_of_mem _ hp)
      rw [reports, List.filter_append, List.foldl_cons]
      cases complete : e.state.complete with
      | true =>
          obtain ⟨hprinted, hstored⟩ := hlater code
          have hcompleted : completed ((code, e) :: sent) = code :: completed sent := by
            simp [completed, complete]
          rw [exampleParseNecFrame_whole first hsent complete, hcompleted, hprinted, hstored,
            List.getLastD_cons]
          exact ⟨rfl, rfl⟩
      | false =>
          obtain ⟨hprinted, hstored⟩ := hlater stored
          obtain ⟨hkept, hsilent⟩ := exampleParseNecFrame_part first hsent complete stored
          have hcompleted : completed ((code, e) :: sent) = completed sent := by
            simp [completed, complete]
          rw [hkept, hsilent, hcompleted, hprinted, hstored]
          exact ⟨rfl, rfl⟩

theorem necSessions_sent (sessions : List (IrNecScanCode × List (ℕ → Room))) :
    ∀ p ∈ necSessions necTxInit sessions, Sent necTxInit p.1 p.2 := by
  have fresh : necTxInit.Fresh := ⟨rfl, rfl, rfl⟩
  induction sessions with
  | nil =>
      intro p hp
      cases hp
  | cons session later ih =>
      obtain ⟨code, calls⟩ := session
      obtain ⟨hsent, hnext⟩ := transmit_sent fresh code calls
      rw [necSessions, hnext]
      exact List.forall_mem_cons.mpr ⟨hsent, ih⟩

theorem length_necSessions (enc : NecEncoder)
    (sessions : List (IrNecScanCode × List (ℕ → Room))) :
    (necSessions enc sessions).length = sessions.length := by
  induction sessions generalizing enc with
  | nil => rfl
  | cons session later ih => rw [necSessions, List.length_cons, List.length_cons, ih]

/-- Between two calls, or while no frame lies in the queue, every frame has been parsed. -/
theorem parsed_all {tr : List RxLabel} {s : RxState} (h : RxRun tr s) (only : OnlyLastGivesUp tr)
    (drained : s.waiting = none ∨ s.receiveQueue = none) : s.parsed = arrivals tr := by
  obtain ⟨sound, phase⟩ := (rx_inv h).sound only
  have hqueue : s.receiveQueue = none := by
    rcases drained with waiting | queue
    · rcases phase with ⟨-, abandoned⟩ | ⟨-, armed⟩
      · exact abandoned.queue
      · cases armed with
        | idle _ _ queue => exact queue
        | listening waiting' => cases waiting.symm.trans waiting'
        | arrived waiting' => cases waiting.symm.trans waiting'
    · exact queue
  rw [← sound.complete, hqueue]
  exact (List.append_nil _).symm

/-- At any time the receiver has printed the codes that were sent to the end, each once, in their
order and none as a repeated one, of the transmissions that it has parsed, and it keeps the last of
them; of a transmission that is given up it takes no notice. Between two calls it has parsed all
of them. -/
theorem nec_link (sessions : List (IrNecScanCode × List (ℕ → Room))) {tr : List RxLabel}
    {s : RxState} (h : RxRun tr s) (only : OnlyLastGivesUp tr)
    (heard : List.Forall₂ (fun p symbols => Heard p.2 symbols) (necSessions necTxInit sessions)
      (arrivals tr)) :
    (reports ⟨0, 0⟩ s.parsed).filter NecReport.accepted =
        (completed ((necSessions necTxInit sessions).take s.parsed.length)).map .frame ∧
      s.stored = (completed ((necSessions necTxInit sessions).take s.parsed.length)).getLastD
        ⟨0, 0⟩ ∧
      sessions.length ≤ s.parsed.length + 1 ∧
      (s.waiting = none ∨ s.receiveQueue = none → s.parsed.length = sessions.length) := by
  obtain ⟨sound, -⟩ := (rx_inv h).sound only
  have hparsed : s.parsed = (arrivals tr).take s.parsed.length := by
    rw [← sound.complete, List.take_left]
  have hheard := List.forall₂_take s.parsed.length heard
  have hlength : sessions.length = (arrivals tr).length := by
    rw [← heard.length_eq, length_necSessions]
  rw [← hparsed] at hheard
  obtain ⟨hprinted, hstored⟩ := heard_reports
    (fun p hp => necSessions_sent sessions p (List.mem_of_mem_take hp)) hheard ⟨0, 0⟩
  refine ⟨hprinted, by rw [sound.stored]; exact hstored, ?_, fun drained => ?_⟩
  · have hqueue : s.receiveQueue.toList.length ≤ 1 := by cases s.receiveQueue <;> simp
    rw [hlength, ← sound.complete, List.length_append, List.length_map]
    omega
  · rw [hlength, parsed_all h only drained]

theorem Heard.refl (e : Encoded) : Heard e e.symbols :=
  ⟨le_rfl, fun _ => rfl, fun i _ s t hs ht => by
    rw [Option.some.inj (hs.symm.trans ht)]
    exact Near.refl t⟩

/-- A transmission that is given up after three symbols, and one that is not. -/
def givenUpSessions : List (IrNecScanCode × List (ℕ → Room)) :=
  [(⟨1, 2⟩, [fun _ => ⟨3, true⟩]), (⟨0x0440, 0x3003⟩, [fun _ => ⟨64, false⟩])]

theorem nec_link_given_up :
    ∃ tr s, RxRun tr s ∧ arrivals tr = (necSessions necTxInit givenUpSessions).map (·.2.symbols) ∧
      (reports ⟨0, 0⟩ s.parsed).filter NecReport.accepted = [.frame ⟨0x0440, 0x3003⟩] ∧
      s.stored = ⟨0x0440, 0x3003⟩ := by
  obtain ⟨p, q, hsessions⟩ : ∃ p q, necSessions necTxInit givenUpSessions = [p, q] := ⟨_, _, rfl⟩
  have hcompleted : completed (necSessions necTxInit givenUpSessions) = [⟨0x0440, 0x3003⟩] := by
    decide +kernel
  have hrun : RxRun [.necRx, .arrival p.2.symbols, .received, .arrival q.2.symbols, .received] _ :=
    rfl
  have harrivals : arrivals [.necRx, .arrival p.2.symbols, .received, .arrival q.2.symbols,
      .received] = (necSessions necTxInit givenUpSessions).map (·.2.symbols) := by
    rw [hsessions]
    rfl
  have honly : OnlyLastGivesUp [.necRx, .arrival p.2.symbols, .received, .arrival q.2.symbols,
      .received] := by
    intro pre post t same
    have hnever : RxLabel.timeout ∈ [RxLabel.necRx, .arrival p.2.symbols, .received,
        .arrival q.2.symbols, .received] := by
      rw [same]
      simp
    simp at hnever
  obtain ⟨hprinted, hstored, -, hall⟩ := nec_link givenUpSessions hrun honly (by
    rw [harrivals, List.forall₂_map_right_iff, List.forall₂_same]
    exact fun p _ => Heard.refl p.2)
  rw [hall (.inr rfl), ← length_necSessions necTxInit, List.take_length, hcompleted]
    at hprinted hstored
  exact ⟨_, _, hrun, harrivals, hprinted, hstored⟩

end Ddsu666
