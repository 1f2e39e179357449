import Tftp.Text.Utf8

namespace Tftp.Utf8

namespace Partial

theorem ofLead?_two : ∀ n < 32, 2 ≤ n →
    ofLead? (.ofNat (n + 0xC0)) = some { bits := n, owed := 1 } := by
  decide

theorem ofLead?_three : ∀ n < 16,
    ofLead? (.ofNat (n + 0xE0)) = some {
      bits := n, owed := 2
      low := if n = 0 then 0xA0 else 0x80
      high := if n = 13 then 0x9F else 0xBF } := by
  decide

theorem ofLead?_four : ∀ n < 5,
    ofLead? (.ofNat (n + 0xF0)) = some {
      bits := n, owed := 3
      low := if n = 0 then 0x90 else 0x80
      high := if n = 4 then 0x8F else 0xBF } := by
  decide

end Partial

theorem start_lead (n : Nat) (hn : n < 256) (hhigh : 0x80 ≤ n) (p : Partial)
    (hp : Partial.ofLead? (.ofNat n) = some p) : start (.ofNat n) = (some p, []) := by
  have hb : ¬UInt8.ofNat n < 0x80 := by
    rw [UInt8.lt_iff_toNat_lt, UInt8.toNat_ofNat_of_lt' hn]
    exact Nat.not_lt.mpr hhigh
  simp only [start, if_neg hb, hp]

theorem step_tail (p : Partial) (n : Nat) (hn : n < 64) (hlow : p.low.toNat ≤ n + 0x80)
    (hhigh : n + 0x80 ≤ p.high.toNat) :
    step (some p) (.ofNat (n + 0x80)) =
      if p.owed = 1 then (none, [Char.ofNat (p.bits * 64 + n)])
      else (some { bits := p.bits * 64 + n, owed := p.owed - 1 }, []) := by
  have hb : (UInt8.ofNat (n + 0x80)).toNat = n + 0x80 := UInt8.toNat_ofNat_of_lt' (by
    simp only [UInt8.size]
    omega)
  have hrange : p.low ≤ UInt8.ofNat (n + 0x80) ∧ UInt8.ofNat (n + 0x80) ≤ p.high := by
    rw [UInt8.le_iff_toNat_le, UInt8.le_iff_toNat_le, hb]
    exact ⟨hlow, hhigh⟩
  simp only [step, if_pos hrange, hb, Nat.add_sub_cancel]

theorem step_more (p : Partial) (n : Nat) (hn : n < 64) (hlow : p.low.toNat ≤ n + 0x80)
    (hhigh : n + 0x80 ≤ p.high.toNat) (howed : p.owed ≠ 1) :
    step (some p) (.ofNat (n + 0x80)) =
      (some { bits := p.bits * 64 + n, owed := p.owed - 1 }, []) := by
  rw [step_tail p n hn hlow hhigh, if_neg howed]

theorem step_last (bits n : Nat) (hn : n < 64) :
    step (some { bits, owed := 1 }) (.ofNat (n + 0x80)) = (none, [Char.ofNat (bits * 64 + n)]) := by
  rw [step_tail { bits, owed := 1 } n hn (Nat.le_add_left _ _), if_pos rfl]
  change n + 0x80 ≤ 191
  omega

theorem run_one (v : Nat) (h : v ≤ 0x7f) :
    Transducer.run step none [.ofNat v] = (none, [Char.ofNat v]) := by
  have hn : (UInt8.ofNat v).toNat = v := UInt8.toNat_ofNat_of_lt' (by simp only [UInt8.size]; omega)
  have hb : UInt8.ofNat v < 0x80 := by
    rw [UInt8.lt_iff_toNat_lt, hn]
    exact Nat.lt_of_le_of_lt h (by decide)
  simp only [Transducer.run_cons, Transducer.run_nil, step, start, if_pos hb, hn, List.append_nil]

theorem run_two (v : Nat) (hlow : 0x7f < v) (hhigh : v ≤ 0x7ff) :
    Transducer.run step none [.ofNat (v / 64 % 0x20 + 0xc0), .ofNat (v % 0x40 + 0x80)] =
      (none, [Char.ofNat v]) := by
  have hl := start_lead (v / 64 % 0x20 + 0xc0) (by omega) (by omega) _
    (Partial.ofLead?_two (v / 64 % 0x20) (by omega) (by omega))
  have ht := step_last (v / 64 % 0x20) (v % 0x40) (by omega)
  have hval : v / 64 % 0x20 * 64 + v % 0x40 = v := by omega
  rw [hval] at ht
  simp only [Transducer.run_cons, Transducer.run_nil, step.eq_1, hl, ht, List.nil_append,
    List.append_nil]

theorem run_three (v : Nat) (hlow : 0x7ff < v) (hhigh : v ≤ 0xffff)
    (hv : v < 0xd800 ∨ 0xdfff < v) :
    Transducer.run step none [.ofNat (v / 4096 % 0x10 + 0xe0), .ofNat (v / 64 % 0x40 + 0x80),
      .ofNat (v % 0x40 + 0x80)] = (none, [Char.ofNat v]) := by
  have hl := start_lead (v / 4096 % 0x10 + 0xe0) (by omega) (by omega) _
    (Partial.ofLead?_three (v / 4096 % 0x10) (by omega))
  generalize hp : ({
      bits := v / 4096 % 0x10, owed := 2
      low := if v / 4096 % 0x10 = 0 then 0xA0 else 0x80
      high := if v / 4096 % 0x10 = 13 then 0x9F else 0xBF } : Partial) = p at hl
  -- the range is narrowed for the lead octet `0xE0`, where fewer octets would do, and for `0xED`, where surrogates lie
  have hpl : p.low.toNat ≤ v / 64 % 0x40 + 0x80 := by
    rw [← hp]
    by_cases hz : v / 4096 % 0x10 = 0
    · simp only [if_pos hz]
      change 160 ≤ _
      omega
    · simp only [if_neg hz]
      exact Nat.le_add_left _ _
  have hph : v / 64 % 0x40 + 0x80 ≤ p.high.toNat := by
    rw [← hp]
    by_cases hd : v / 4096 % 0x10 = 13
    · simp only [if_pos hd]
      change _ ≤ 159
      omega
    · simp only [if_neg hd]
      change _ ≤ 191
      omega
  have hm := step_more p (v / 64 % 0x40) (by omega) hpl hph (by rw [← hp]; simp)
  rw [← hp] at hm
  have ht := step_last (v / 4096 % 0x10 * 64 + v / 64 % 0x40) (v % 0x40) (by omega)
  have hval : (v / 4096 % 0x10 * 64 + v / 64 % 0x40) * 64 + v % 0x40 = v := by omega
  rw [hval] at ht
  simp only [Transducer.run_cons, Transducer.run_nil, step.eq_1, hl, ← hp, hm, ht, List.nil_append,
    List.append_nil]

theorem run_four (v : Nat) (hlow : 0xffff < v) (hhigh : v < 0x110000) :
    Transducer.run step none [.ofNat (v / 262144 % 0x08 + 0xf0), .ofNat (v / 4096 % 0x40 + 0x80),
      .ofNat (v / 64 % 0x40 + 0x80), .ofNat (v % 0x40 + 0x80)] = (none, [Char.ofNat v]) := by
  have hl := start_lead (v / 262144 % 0x08 + 0xf0) (by omega) (by omega) _
    (Partial.ofLead?_four (v / 262144 % 0x08) (by omega))
  generalize hp : ({
      bits := v / 262144 % 0x08, owed := 3
      low := if v / 262144 % 0x08 = 0 then 0x90 else 0x80
      high := if v / 262144 % 0x08 = 4 then 0x8F else 0xBF } : Partial) = p at hl
  have hpl : p.low.toNat ≤ v / 4096 % 0x40 + 0x80 := by
    rw [← hp]
    by_cases hz : v / 262144 % 0x08 = 0
    · simp only [if_pos hz]
      change 144 ≤ _
      omega
    · simp only [if_neg hz]
      exact Nat.le_add_left _ _
  have hph : v / 4096 % 0x40 + 0x80 ≤ p.high.toNat := by
    rw [← hp]
    by_cases hd : v / 262144 % 0x08 = 4
    · simp only [if_pos hd]
      change _ ≤ 143
      omega
    · simp only [if_neg hd]
      change _ ≤ 191
      omega
  have hm := step_more p (v / 4096 % 0x40) (by omega) hpl hph (by rw [← hp]; simp)
  rw [← hp] at hm
  have hm' := step_more { bits := v / 262144 % 0x08 * 64 + v / 4096 % 0x40, owed := 2 }
    (v / 64 % 0x40) (by omega) (Nat.le_add_left _ _) (by change _ ≤ 191; omega) (by simp)
  have ht := step_last ((v / 262144 % 0x08 * 64 + v / 4096 % 0x40) * 64 + v / 64 % 0x40) (v % 0x40)
    (by omega)
  have hval : ((v / 262144 % 0x08 * 64 + v / 4096 % 0x40) * 64 + v / 64 % 0x40) * 64 +
      v % 0x40 = v := by omega
  rw [hval] at ht
  simp only [Transducer.run_cons, Transducer.run_nil, step.eq_1, hl, ← hp, hm, hm', ht,
    List.nil_append, List.append_nil]

theorem run_encodeChar (c : Char) :
    Transducer.run step none (String.utf8EncodeChar c) = (none, [c]) := by
  have hc : Char.ofNat c.val.toNat = c := Char.ofNat_toNat c
  have hv : c.val.toNat < 0xd800 ∨ 0xdfff < c.val.toNat ∧ c.val.toNat < 0x110000 := c.valid
  unfold String.utf8EncodeChar
  generalize c.val.toNat = v at hc hv
  rw [← hc]
  simp only
  split
  · next h => exact run_one v h
  · split
    · next h h' => exact run_two v (Nat.lt_of_not_le h) h'
    · split
      · next h h' => exact run_three v (Nat.lt_of_not_le h) h' (hv.imp_right And.left)
      · next h => exact run_four v (Nat.lt_of_not_le h) (by omega)

theorem run_flatMap_encodeChar (cs : List Char) :
    Transducer.run step none (cs.flatMap String.utf8EncodeChar) = (none, cs) := by
  induction cs with
  | nil => rfl
  | cons c cs ih => rw [List.flatMap_cons, Transducer.run_append, run_encodeChar, ih, List.singleton_append]

theorem decode_encode (s : String) : decode (encode s) = s := by
  rw [decode, decodeChars, encode, run_flatMap_encodeChar]
  simp only [rest, List.append_nil, String.ofList_toList]

theorem zero_notMem_encodeChar (c : Char) (h : c ≠ '\x00') : 0 ∉ String.utf8EncodeChar c := by
  have hv : c.val.toNat ≠ 0 := fun hz => h (Char.ext (UInt32.toNat_inj.mp hz))
  have hne : ∀ n, 0 < n → n < 256 → (0 : UInt8) ≠ .ofNat n := by
    intro n hpos hlt hz
    have := congrArg UInt8.toNat hz
    rw [UInt8.toNat_ofNat_of_lt' hlt] at this
    exact Nat.ne_of_lt hpos this
  unfold String.utf8EncodeChar
  generalize c.val.toNat = v at hv
  simp only
  split
  · simp only [List.mem_singleton]
    exact hne v (by omega) (by omega)
  · split
    · simp only [List.mem_cons, List.not_mem_nil, or_false, not_or]
      exact ⟨hne _ (by omega) (by omega), hne _ (by omega) (by omega)⟩
    · split
      · simp only [List.mem_cons, List.not_mem_nil, or_false, not_or]
        exact ⟨hne _ (by omega) (by omega), hne _ (by omega) (by omega), hne _ (by omega) (by omega)⟩
      · simp only [List.mem_cons, List.not_mem_nil, or_false, not_or]
        exact ⟨hne _ (by omega) (by omega), hne _ (by omega) (by omega), hne _ (by omega) (by omega),
          hne _ (by omega) (by omega)⟩

theorem zero_notMem_encode (s : String) (h : '\x00' ∉ s.toList) : 0 ∉ encode s := by
  intro hz
  obtain ⟨c, hc, hb⟩ := List.mem_flatMap.mp hz
  exact zero_notMem_encodeChar c (fun heq => h (heq ▸ hc)) hb

namespace Partial

def span : Nat → Nat
  | 0 => 1
  | octets + 1 => 64 * span octets

/-- The least number that the octets still owed can lead to. -/
def least (p : Partial) : Nat :=
  (p.bits * 64 + (p.low.toNat - 0x80)) * span (p.owed - 1)

def bound (p : Partial) : Nat :=
  (p.bits * 64 + (p.high.toNat - 0x80) + 1) * span (p.owed - 1)

/-- However it is carried on, it becomes a character, and not NUL. -/
def Sure (p : Partial) : Prop :=
  0x80 ≤ p.low.toNat ∧ 0 < p.owed ∧ 0 < p.least ∧
    (p.bound ≤ 0xD800 ∨ 0xE000 ≤ p.least ∧ p.bound ≤ 0x110000)

instance (p : Partial) : Decidable p.Sure :=
  inferInstanceAs (Decidable (_ ∧ _))

def next (p : Partial) (n : Nat) : Partial where
  bits := p.bits * 64 + n
  owed := p.owed - 1

variable {p : Partial}

theorem least_next (howed : 2 ≤ p.owed) {n : Nat} (hn : p.low.toNat - 0x80 ≤ n) : p.least ≤ (p.next n).least := by
  obtain ⟨k, hk⟩ : ∃ k, p.owed = k + 2 := ⟨p.owed - 2, by omega⟩
  have hnext : (p.next n).least = (p.bits * 64 + n) * span (k + 1) := by
    simp only [least, next, hk, UInt8.reduceToNat, Nat.sub_self, Nat.add_zero, Nat.add_one_sub_one, span]
    rw [Nat.mul_assoc]
  rw [hnext, least, hk]
  exact Nat.mul_le_mul_right _ (by omega)

theorem bound_next (howed : 2 ≤ p.owed) {n : Nat} (hn : n ≤ p.high.toNat - 0x80) : (p.next n).bound ≤ p.bound := by
  obtain ⟨k, hk⟩ : ∃ k, p.owed = k + 2 := ⟨p.owed - 2, by omega⟩
  have hnext : (p.next n).bound = (p.bits * 64 + n + 1) * span (k + 1) := by
    simp only [bound, next, hk, UInt8.reduceToNat, Nat.add_one_sub_one, span]
    rw [← Nat.mul_assoc, Nat.add_mul (p.bits * 64 + _) 1 64]
  rw [hnext, bound, hk]
  exact Nat.mul_le_mul_right _ (by omega)

def Wide (p : Partial) : Prop :=
  p.Sure ∧ 0x80 ≤ p.least

instance (p : Partial) : Decidable p.Wide :=
  inferInstanceAs (Decidable (_ ∧ _))

theorem wide_of_lead {b : UInt8} (h : ofLead? b = some p) : p.Wide := by
  have hall : ∀ n < 256, ∀ p ∈ ofLead? (.ofNat n), p.Wide := by decide +kernel
  refine hall b.toNat b.toNat_lt p ?_
  rwa [UInt8.ofNat_toNat]

variable {n : Nat} (h : p.Wide) (hl : p.low.toNat ≤ n + 0x80) (hh : n + 0x80 ≤ p.high.toNat)
include h hl hh

theorem wide_next (howed : p.owed ≠ 1) : (p.next n).Wide := by
  obtain ⟨⟨-, howed', hpos, hvalid⟩, hwide⟩ := h
  have htwo : 2 ≤ p.owed := by omega
  have hleast := @least_next p htwo n (by omega)
  have hbound := @bound_next p htwo n (by omega)
  exact ⟨⟨Nat.le_refl 0x80, Nat.sub_pos_of_lt htwo, Nat.lt_of_lt_of_le hpos hleast, by omega⟩,
    Nat.le_trans hwide hleast⟩

theorem wide_last (howed : p.owed = 1) : (p.bits * 64 + n).isValidChar ∧ 0x80 ≤ p.bits * 64 + n := by
  obtain ⟨⟨hlow, -, -, hvalid⟩, hwide⟩ := h
  simp only [least, bound, howed, Nat.sub_self, span, Nat.mul_one] at hvalid hwide
  refine ⟨?_, by omega⟩
  rcases hvalid with hvalid | hvalid
  · exact .inl (by omega)
  · exact .inr (by omega)

end Partial

theorem toNat_ofNat (n : Nat) (hv : n.isValidChar) : (Char.ofNat n).toNat = n := by
  rw [Char.ofNat, dif_pos hv]
  rfl

variable {c : Char}

theorem count_longer (hc : c.toNat < 0x80) {d : Char} (hd : 0x80 ≤ d.toNat) (cs : List Char) :
    (d :: cs).count c = cs.count c := by
  refine List.count_cons_of_ne ?_
  rintro rfl
  omega

theorem toNat_byte (hc : c.toNat < 0x80) : (UInt8.ofNat c.toNat).toNat = c.toNat :=
  UInt8.toNat_ofNat_of_lt' (Nat.lt_trans hc (by decide))

theorem count_byte (hc : c.toNat < 0x80) {b : UInt8} (hb : 0x80 ≤ b.toNat) : [b].count (.ofNat c.toNat) = 0 := by
  refine List.count_eq_zero.mpr fun hm => ?_
  rw [← List.mem_singleton.mp hm, toNat_byte hc] at hb
  omega

/-- The state is one that octets lead to, and of the character as many have been written as octets that stand for it
have been read. -/
structure Tally (c : Char) (bytes : Bytes) (state : Option Partial) (written : List Char) : Prop where
  state : ∀ p ∈ state, p.Wide
  written : written.count c = bytes.count (.ofNat c.toNat)

theorem tally_start (hc : c.toNat < 0x80) (b : UInt8) : Tally c [b] (start b).1 (start b).2 := by
  rw [start]
  split
  · next hb =>
    have hlt : b.toNat < 0x80 := UInt8.lt_iff_toNat_lt.mp hb
    have hiff : Char.ofNat b.toNat = c ↔ b = .ofNat c.toNat := by
      rw [← UInt8.toNat_inj, toNat_byte hc, ← Char.toNat_inj, toNat_ofNat _ (.inl (by omega))]
    refine ⟨nofun, ?_⟩
    simp only [List.count_singleton, beq_iff_eq, hiff]
  · next hb =>
    have hcount : [b].count (.ofNat c.toNat) = 0 :=
      count_byte hc (Nat.not_lt.mp fun hlt => hb (UInt8.lt_iff_toNat_lt.mpr hlt))
    split
    · next p hp =>
      refine ⟨fun q hq => ?_, hcount.symm⟩
      cases hq
      exact Partial.wide_of_lead hp
    · exact ⟨nofun, (count_longer hc (by decide) []).trans hcount.symm⟩

theorem tally_step (hc : c.toNat < 0x80) {state : Option Partial} (h : ∀ p ∈ state, p.Wide) (b : UInt8) :
    Tally c [b] (step state b).1 (step state b).2 := by
  cases state with
  | none => exact tally_start hc b
  | some p =>
    have hp : p.Wide := h p rfl
    rw [step]
    split
    · next hr =>
      have hlow : 0x80 ≤ p.low.toNat := hp.1.1
      obtain ⟨hl, hh⟩ := hr
      rw [UInt8.le_iff_toNat_le] at hl hh
      have hcount : [b].count (.ofNat c.toNat) = 0 := count_byte hc (Nat.le_trans hlow hl)
      have hl' : p.low.toNat ≤ b.toNat - 0x80 + 0x80 := by omega
      have hh' : b.toNat - 0x80 + 0x80 ≤ p.high.toNat := by omega
      split
      · next howed =>
        obtain ⟨hv, hn⟩ := Partial.wide_last hp hl' hh' howed
        exact ⟨nofun, (count_longer hc (by rwa [toNat_ofNat _ hv]) []).trans hcount.symm⟩
      · next howed =>
        refine ⟨fun q hq => ?_, hcount.symm⟩
        rw [← Option.some.inj hq]
        exact Partial.wide_next hp hl' hh' howed
    · obtain ⟨hstate, hwritten⟩ := tally_start hc b
      exact ⟨hstate, (count_longer hc (by decide) _).trans hwritten⟩

theorem tally_run (hc : c.toNat < 0x80) (bytes : Bytes) {state : Option Partial} (h : ∀ p ∈ state, p.Wide) :
    Tally c bytes (Transducer.run step state bytes).1 (Transducer.run step state bytes).2 := by
  induction bytes generalizing state with
  | nil => exact ⟨h, rfl⟩
  | cons b bytes ih =>
    obtain ⟨hstate, hwritten⟩ := tally_step hc h b
    obtain ⟨hlast, hmore⟩ := ih hstate
    rw [Transducer.run_cons]
    refine ⟨hlast, ?_⟩
    rw [List.count_append, hwritten, hmore, ← List.count_append, List.singleton_append]

/-- Whatever else the octets are, each ASCII character among them is read as itself, and none comes of the others. -/
theorem count_decode (hc : c.toNat < 0x80) (bytes : Bytes) :
    (decode bytes).toList.count c = bytes.count (.ofNat c.toNat) := by
  obtain ⟨-, hwritten⟩ := @tally_run c hc bytes none nofun
  have hrest : ∀ state, (rest state).count c = 0 := by
    intro state
    cases state with
    | none => rfl
    | some p => exact count_longer hc (by decide) []
  rw [decode, String.toList_ofList, decodeChars, List.count_append, hwritten, hrest, Nat.add_zero]

theorem nul_notMem_decode (bytes : Bytes) (h : 0 ∉ bytes) : '\x00' ∉ (decode bytes).toList := by
  rw [← List.count_eq_zero, count_decode (by decide)]
  exact List.count_eq_zero.mpr h

end Tftp.Utf8
