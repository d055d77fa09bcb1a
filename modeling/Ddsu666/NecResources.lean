/- The objects behind NEC encoders in ir_nec_encoder.c: what `rmt_new_ir_nec_encoder` obtains, what
   its error path gives back, and what `rmt_del_ir_nec_encoder` deletes. -/
import Ddsu666.Runs
import Mathlib.Data.List.Perm.Lattice

namespace Ddsu666

/-- Addresses handed out and not yet given back, the next address, and what was given back without
being there. -/
structure Objects where
  live : List ℕ
  next : ℕ
  misused : List ℕ

namespace Objects

def obtain (o : Objects) : ℕ × Objects :=
  (o.next, { o with live := o.next :: o.live, next := o.next + 1 })

def delete (o : Objects) (p : ℕ) : Objects :=
  if p ∈ o.live then { o with live := o.live.erase p } else { o with misused := p :: o.misused }

/-- `rmt_del_encoder`, which refuses a null pointer. -/
def deleteEncoder (o : Objects) : Option ℕ → Objects
  | none => o
  | some p => o.delete p

end Objects

inductive EspErr where
  | invalidArg
  | noMem
  | other (code : ℕ)
  deriving DecidableEq

/-- The structure `rmt_ir_nec_encoder_t` and its two pointers. -/
structure NecEncoderMem where
  address : ℕ
  copyEncoder : Option ℕ
  bytesEncoder : Option ℕ
  deriving DecidableEq

/-- The arguments, and what the driver says to the three requests. -/
structure NewCall where
  config : Bool
  retEncoder : Bool
  memory : Bool
  copyEncoder : Option EspErr
  bytesEncoder : Option EspErr

/-- The label `err`. -/
def newErr (necEncoder : Option NecEncoderMem) (o : Objects) : Objects :=
  match necEncoder with
  | none => o
  | some m => ((o.deleteEncoder m.bytesEncoder).deleteEncoder m.copyEncoder).delete m.address

/-- `rmt_new_ir_nec_encoder`; `rmt_alloc_encoder_mem` clears the structure. -/
def newIrNecEncoder (c : NewCall) (o : Objects) : Except EspErr NecEncoderMem × Objects :=
  if ¬ (c.config ∧ c.retEncoder) then (.error .invalidArg, newErr none o)
  else if ¬ c.memory then (.error .noMem, newErr none o)
  else
    let (address, o) := o.obtain
    let necEncoder : NecEncoderMem := ⟨address, none, none⟩
    match c.copyEncoder with
    | some ret => (.error ret, newErr (some necEncoder) o)
    | none =>
        let (copyEncoder, o) := o.obtain
        let necEncoder := { necEncoder with copyEncoder := some copyEncoder }
        match c.bytesEncoder with
        | some ret => (.error ret, newErr (some necEncoder) o)
        | none =>
            let (bytesEncoder, o) := o.obtain
            (.ok { necEncoder with bytesEncoder := some bytesEncoder }, o)

def rmtDelIrNecEncoder (m : NecEncoderMem) (o : Objects) : Objects :=
  ((o.deleteEncoder m.copyEncoder).deleteEncoder m.bytesEncoder).delete m.address

/-! Encoders that come and go. -/

structure EncoderPool where
  objects : Objects
  handles : List NecEncoderMem

inductive PoolLabel where
  | new (c : NewCall)
  | del (m : NecEncoderMem)

/-- A caller deletes what it was given, and once. -/
def poolStep (s : EncoderPool) : PoolLabel → Option EncoderPool
  | .new c =>
      match newIrNecEncoder c s.objects with
      | (.ok m, o) => some ⟨o, m :: s.handles⟩
      | (.error _, o) => some ⟨o, s.handles⟩
  | .del m =>
      if m ∈ s.handles then some ⟨rmtDelIrNecEncoder m s.objects, s.handles.erase m⟩ else none

def emptyPool : EncoderPool := ⟨⟨[], 0, []⟩, []⟩

def PoolRun (tr : List PoolLabel) (s : EncoderPool) : Prop :=
  Runs.run poolStep emptyPool tr = some s

def NecEncoderMem.parts (m : NecEncoderMem) : List ℕ :=
  m.copyEncoder.toList ++ (m.bytesEncoder.toList ++ [m.address])

/-- Every request was granted. -/
def NewCall.succeeds (c : NewCall) : Bool :=
  c.config && c.retEncoder && c.memory && c.copyEncoder.isNone && c.bytesEncoder.isNone

def PoolLabel.isCreation : PoolLabel → Bool
  | .new c => c.succeeds
  | .del _ => false

def PoolLabel.isDeletion : PoolLabel → Bool
  | .new _ => false
  | .del _ => true

/-- These addresses are out, each for one object, and nothing was given back twice. -/
structure Objects.Owns (o : Objects) (ps : List ℕ) : Prop where
  live : o.live.Perm ps
  issued : ∀ p ∈ ps, p < o.next
  distinct : ps.Nodup
  misused : o.misused = []

section Ownership

variable {o : Objects} {ps qs : List ℕ}

theorem Objects.Owns.perm (h : o.Owns ps) (same : ps.Perm qs) : o.Owns qs where
  live := h.live.trans same
  issued p hp := h.issued p (same.mem_iff.mpr hp)
  distinct := same.nodup_iff.mp h.distinct
  misused := h.misused

theorem Objects.Owns.obtain (h : o.Owns ps) : o.obtain.2.Owns (o.obtain.1 :: ps) where
  live := h.live.cons o.next
  issued p hp := by
    rcases List.mem_cons.mp hp with rfl | hp
    · exact Nat.lt_succ_self _
    · exact Nat.lt_succ_of_lt (h.issued p hp)
  distinct := List.nodup_cons.mpr ⟨fun old => Nat.lt_irrefl _ (h.issued _ old), h.distinct⟩
  misused := h.misused

theorem Objects.Owns.delete {p : ℕ} (h : o.Owns (p :: ps)) : (o.delete p).Owns ps := by
  have hp : p ∈ o.live := h.live.mem_iff.mpr List.mem_cons_self
  rw [Objects.delete, if_pos hp]
  refine ⟨?_, fun q hq => h.issued q (List.mem_cons_of_mem p hq), h.distinct.of_cons, h.misused⟩
  have herase := h.live.erase p
  rwa [List.erase_cons_head] at herase

theorem Objects.Owns.deleteEncoder {p : Option ℕ} (h : o.Owns (p.toList ++ ps)) :
    (o.deleteEncoder p).Owns ps := by
  cases p with
  | none => exact h
  | some p => exact h.delete

theorem newErr_owns {m : NecEncoderMem} (h : o.Owns (m.parts ++ ps)) :
    (newErr (some m) o).Owns ps := by
  have hswap : (m.parts ++ ps).Perm
      (m.bytesEncoder.toList ++ (m.copyEncoder.toList ++ ([m.address] ++ ps))) := by
    rw [NecEncoderMem.parts, List.append_assoc, List.append_assoc]
    exact List.perm_append_comm_assoc _ _ _
  exact (h.perm hswap).deleteEncoder.deleteEncoder.delete

theorem rmtDelIrNecEncoder_owns {m : NecEncoderMem} (h : o.Owns (m.parts ++ ps)) :
    (rmtDelIrNecEncoder m o).Owns ps := by
  rw [NecEncoderMem.parts, List.append_assoc, List.append_assoc] at h
  exact h.deleteEncoder.deleteEncoder.delete

/-- A call that fails, wherever it does, leaves nothing behind. -/
theorem newIrNecEncoder_owns (h : o.Owns ps) (c : NewCall) :
    match newIrNecEncoder c o with
    | (.ok m, o') => c.succeeds = true ∧ o'.Owns (m.parts ++ ps) ∧ m.parts.length = 3
    | (.error _, o') => c.succeeds = false ∧ o'.Owns ps := by
  obtain ⟨config, retEncoder, memory, copyEncoder, bytesEncoder⟩ := c
  cases config with
  | false => exact ⟨rfl, h⟩
  | true =>
      cases retEncoder with
      | false => exact ⟨rfl, h⟩
      | true =>
          cases memory with
          | false => exact ⟨rfl, h⟩
          | true =>
              cases copyEncoder with
              | some ret => exact ⟨rfl, newErr_owns (m := ⟨_, none, none⟩) h.obtain⟩
              | none =>
                  cases bytesEncoder with
                  | some ret => exact ⟨rfl, newErr_owns (m := ⟨_, some _, none⟩) h.obtain.obtain⟩
                  | none => exact ⟨rfl, h.obtain.obtain.obtain.perm (.swap _ _ _), rfl⟩

end Ownership

/-- What a pool of encoders owns, and how many there are. -/
structure PoolInv (tr : List PoolLabel) (s : EncoderPool) : Prop where
  owns : s.objects.Owns (s.handles.flatMap NecEncoderMem.parts)
  complete : ∀ m ∈ s.handles, m.parts.length = 3
  count : s.handles.length + tr.countP PoolLabel.isDeletion = tr.countP PoolLabel.isCreation

theorem poolInv_step {tr : List PoolLabel} {s t : EncoderPool} {a : PoolLabel}
    (inv : PoolInv tr s) (h : poolStep s a = some t) : PoolInv (tr ++ [a]) t := by
  have hcount := inv.count
  cases a with
  | new c =>
      have hnew := newIrNecEncoder_owns inv.owns c
      simp only [poolStep] at h
      split at h
      · rename_i m o hcall
        rw [hcall] at hnew
        obtain ⟨succeeds, owns, hthree⟩ := hnew
        obtain rfl := Option.some.inj h
        refine ⟨owns, List.forall_mem_cons.mpr ⟨hthree, inv.complete⟩, ?_⟩
        simp only [List.countP_append, List.countP_singleton, PoolLabel.isCreation,
          PoolLabel.isDeletion, succeeds, if_true, Bool.false_eq_true, if_false,
          List.length_cons]
        omega
      · rename_i ret o hcall
        rw [hcall] at hnew
        obtain ⟨fails, owns⟩ := hnew
        obtain rfl := Option.some.inj h
        refine ⟨owns, inv.complete, ?_⟩
        simp only [List.countP_append, List.countP_singleton, PoolLabel.isCreation,
          PoolLabel.isDeletion, fails, Bool.false_eq_true, if_false]
        omega
  | del m =>
      obtain ⟨hm, rfl⟩ := Runs.enabled h
      have hparts : (s.handles.flatMap NecEncoderMem.parts).Perm
          (m.parts ++ (s.handles.erase m).flatMap NecEncoderMem.parts) :=
        (List.perm_cons_erase hm).flatMap_right _
      refine ⟨rmtDelIrNecEncoder_owns (inv.owns.perm hparts),
        fun m' hm' => inv.complete m' (List.mem_of_mem_erase hm'), ?_⟩
      have hpos := List.length_pos_of_mem hm
      simp only [List.countP_append, List.countP_singleton, PoolLabel.isCreation,
        PoolLabel.isDeletion, if_true, Bool.false_eq_true, if_false, List.length_erase_of_mem hm]
      omega

theorem pool_inv {tr : List PoolLabel} {s : EncoderPool} (h : PoolRun tr s) : PoolInv tr s := by
  refine Runs.history_invariant (P := PoolInv) ?_ ?_ tr s h
  · refine ⟨⟨List.Perm.refl _, ?_, List.nodup_nil, rfl⟩, ?_, rfl⟩
    · exact fun p hp => absurd hp List.not_mem_nil
    · exact fun m hm => absurd hm List.not_mem_nil
  · exact fun as t a u _ inv hstep => poolInv_step inv hstep

/-- However creations fail and in whatever order encoders are deleted: nothing is given back twice,
no two encoders share an object, and three objects are out for each encoder that was created and
not yet deleted, none for a creation that failed. -/
theorem encoders_balanced {tr : List PoolLabel} {s : EncoderPool} (h : PoolRun tr s) :
    s.objects.misused = [] ∧ s.objects.live.Nodup ∧
      s.objects.live.Perm (s.handles.flatMap NecEncoderMem.parts) ∧
      s.objects.live.length + 3 * tr.countP PoolLabel.isDeletion =
        3 * tr.countP PoolLabel.isCreation := by
  have inv := pool_inv h
  have hlive := inv.owns.live
  refine ⟨inv.owns.misused, hlive.nodup_iff.mpr inv.owns.distinct, hlive, ?_⟩
  have hthree : (s.handles.flatMap NecEncoderMem.parts).length = 3 * s.handles.length := by
    rw [List.length_flatMap, List.map_congr_left inv.complete, List.map_const',
      List.sum_replicate_nat, Nat.mul_comm]
  have hcount := inv.count
  rw [hlive.length_eq, hthree]
  omega

/-- Two encoders, with a creation in between that fails at its last request. -/
def busyPool : List PoolLabel :=
  [.new ⟨true, true, true, none, none⟩, .new ⟨true, true, true, none, some .noMem⟩,
    .new ⟨true, true, true, none, none⟩, .del ⟨0, some 1, some 2⟩]

theorem encoders_balanced_busy :
    ∃ s, PoolRun busyPool s ∧ s.objects.misused = [] ∧ s.objects.live.length = 3 := by
  have hrun : PoolRun busyPool _ := rfl
  obtain ⟨misused, -, -, hlength⟩ := encoders_balanced hrun
  have hcreations : busyPool.countP PoolLabel.isCreation = 2 := rfl
  have hdeletions : busyPool.countP PoolLabel.isDeletion = 1 := rfl
  rw [hcreations, hdeletions] at hlength
  exact ⟨_, hrun, misused, by omega⟩

end Ddsu666
