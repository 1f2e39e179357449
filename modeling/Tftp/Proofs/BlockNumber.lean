import Tftp.Block.Number

namespace Tftp.Block

theorem order_eq_expected_iff (received expected : UInt16) :
    order received expected = .expected ↔ received = expected := by
  simp only [order]
  constructor
  · intro h
    split at h
    · next hz =>
      have hs : received - expected = 0 := UInt16.toNat_inj.mp hz
      rw [← UInt16.sub_add_cancel received expected, hs, UInt16.zero_add]
    · split at h <;> cases h
  · intro h
    subst h
    rw [UInt16.sub_self]
    rfl

theorem order_self (number : UInt16) : order number number = .expected :=
  (order_eq_expected_iff number number).mpr rfl

/-- The number comes up to half a circle before the other. -/
def Behind (received expected : UInt16) : Prop :=
  ∃ steps : Nat, 0 < steps ∧ steps ≤ 32768 ∧ received + .ofNat steps = expected

/-- The number comes less than half a circle after the other. -/
def Ahead (received expected : UInt16) : Prop :=
  ∃ steps : Nat, 0 < steps ∧ steps < 32768 ∧ expected + .ofNat steps = received

theorem order_eq_ahead_iff (received expected : UInt16) :
    order received expected = .ahead ↔ Ahead received expected := by
  have hsteps : order received expected = .ahead ↔
      0 < (received - expected).toNat ∧ (received - expected).toNat < 32768 := by
    simp only [order]
    split
    · next hz => simp [hz]
    · split <;> simp <;> omega
  rw [hsteps]
  constructor
  · rintro ⟨hpos, hlt⟩
    refine ⟨(received - expected).toNat, hpos, hlt, ?_⟩
    rw [UInt16.ofNat_toNat, UInt16.add_comm, UInt16.sub_add_cancel]
  · rintro ⟨steps, hpos, hlt, rfl⟩
    have heq : (expected + UInt16.ofNat steps - expected).toNat = steps := by
      rw [UInt16.add_comm, UInt16.add_sub_cancel, UInt16.toNat_ofNat', Nat.mod_eq_of_lt (by omega)]
    rw [heq]
    exact ⟨hpos, hlt⟩

theorem order_eq_behind_iff (received expected : UInt16) :
    order received expected = .behind ↔ Behind received expected := by
  have hsteps : order received expected = .behind ↔ 32768 ≤ (received - expected).toNat := by
    simp only [order]
    split
    · next hz => simp [hz]
    · split <;> simp <;> omega
  rw [hsteps]
  constructor
  · intro hge
    have hlt := (received - expected).toNat_lt
    refine ⟨65536 - (received - expected).toNat, by omega, by omega, ?_⟩
    apply UInt16.toNat_inj.mp
    rw [UInt16.toNat_add, UInt16.toNat_ofNat']
    rw [UInt16.toNat_sub] at hge hlt ⊢
    have hr := received.toNat_lt
    have he := expected.toNat_lt
    omega
  · rintro ⟨steps, hpos, hle, rfl⟩
    rw [UInt16.toNat_sub, UInt16.toNat_add, UInt16.toNat_ofNat']
    have hr := received.toNat_lt
    omega

theorem order_cases (received expected : UInt16) :
    received = expected ∨ Behind received expected ∨ Ahead received expected := by
  cases ho : order received expected with
  | expected => exact .inl ((order_eq_expected_iff _ _).mp ho)
  | behind => exact .inr (.inl ((order_eq_behind_iff _ _).mp ho))
  | ahead => exact .inr (.inr ((order_eq_ahead_iff _ _).mp ho))

theorem Behind.ne {received expected : UInt16} (h : Behind received expected) : received ≠ expected := by
  intro heq
  rw [← order_eq_behind_iff, heq, order_self] at h
  cases h

theorem Ahead.ne {received expected : UInt16} (h : Ahead received expected) : received ≠ expected := by
  intro heq
  rw [← order_eq_ahead_iff, heq, order_self] at h
  cases h

theorem ofNat_ne_ofNat (i j : Nat) (hlt : i < j) (hnear : j < i + 65536) :
    UInt16.ofNat i ≠ UInt16.ofNat j := by
  intro h
  have hn := congrArg UInt16.toNat h
  rw [UInt16.toNat_ofNat', UInt16.toNat_ofNat'] at hn
  omega

theorem order_of_lt (i j : Nat) (hlt : i < j) (hnear : j ≤ i + 32768) : order (.ofNat i) (.ofNat j) = .behind := by
  rw [order_eq_behind_iff]
  refine ⟨j - i, by omega, by omega, ?_⟩
  rw [← UInt16.ofNat_add, Nat.add_sub_cancel' (Nat.le_of_lt hlt)]

theorem order_of_gt (i j : Nat) (hlt : j < i) (hnear : i < j + 32768) : order (.ofNat i) (.ofNat j) = .ahead := by
  rw [order_eq_ahead_iff]
  refine ⟨i - j, by omega, by omega, ?_⟩
  rw [← UInt16.ofNat_add, Nat.add_sub_cancel' (Nat.le_of_lt hlt)]

/-- Two blocks share a number just if whole circles lie between them. -/
theorem order_expected_iff_mod (i j : Nat) :
    order (.ofNat i) (.ofNat j) = .expected ↔ i % 65536 = j % 65536 := by
  rw [order_eq_expected_iff, ← UInt16.toNat_inj, UInt16.toNat_ofNat', UInt16.toNat_ofNat']

theorem order_stale (i j : Nat) (hlt : i < j) (hnear : j < i + 65536) :
    order (.ofNat i) (.ofNat j) ≠ .expected :=
  fun h => ofNat_ne_ofNat i j hlt hnear ((order_eq_expected_iff _ _).mp h)

theorem ofNat_succ (n : Nat) : UInt16.ofNat (n + 1) = UInt16.ofNat n + 1 :=
  UInt16.ofNat_add n 1

end Tftp.Block
