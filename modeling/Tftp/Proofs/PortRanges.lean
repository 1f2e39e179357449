import Mathlib.Data.List.TakeWhile
import Mathlib.Data.Nat.Find
import Tftp.Proofs.Numerals
import Tftp.Server.PortRange

namespace Tftp

namespace Blank

theorem isBlank_of_isDigit {c : Char} (h : c.isDigit = true) : isBlank c = false := by
  have hrange : 48 ≤ c.toNat ∧ c.toNat ≤ 57 := by
    simp only [Char.isDigit, ge_iff_le, Bool.and_eq_true, decide_eq_true_eq, UInt32.le_iff_toNat_le] at h
    exact h
  simp only [isBlank, ranges, List.any_cons, List.any_nil, Bool.or_false, Bool.or_eq_false_iff, Bool.and_eq_false_iff,
    decide_eq_false_iff_not]
  omega

def Blanks (cs : List Char) : Prop :=
  ∀ c ∈ cs, isBlank c = true

theorem exists_trimChars (cs : List Char) :
    ∃ left right, cs = left ++ trimChars cs ++ right ∧ Blanks left ∧ Blanks right := by
  refine ⟨cs.takeWhile isBlank, ((cs.dropWhile isBlank).reverse.takeWhile isBlank).reverse, ?_,
    fun c hc => List.mem_takeWhile_imp hc, fun c hc => List.mem_takeWhile_imp (List.mem_reverse.mp hc)⟩
  rw [trimChars, List.append_assoc, ← List.reverse_append, List.takeWhile_append_dropWhile, List.reverse_reverse,
    List.takeWhile_append_dropWhile]

theorem dropWhile_blanks {blanks : List Char} (hb : Blanks blanks) {core : List Char}
    (hc : ∀ c ∈ core, isBlank c = false) (hne : core ≠ []) (more : List Char) :
    (blanks ++ core ++ more).dropWhile isBlank = core ++ more := by
  obtain ⟨first, core, rfl⟩ := List.exists_cons_of_ne_nil hne
  rw [List.append_assoc, List.dropWhile_append_of_pos hb, List.cons_append,
    List.dropWhile_cons_of_neg (by rw [hc first List.mem_cons_self]; decide)]

theorem trimChars_padded {left core right : List Char} (hl : Blanks left) (hr : Blanks right)
    (hc : ∀ c ∈ core, isBlank c = false) (hne : core ≠ []) : trimChars (left ++ core ++ right) = core := by
  have hback := dropWhile_blanks (fun c (h : c ∈ right.reverse) => hr c (List.mem_reverse.mp h))
    (fun c (h : c ∈ core.reverse) => hc c (List.mem_reverse.mp h)) (List.reverse_ne_nil_iff.mpr hne) []
  rw [List.append_nil, List.append_nil] at hback
  rw [trimChars, dropWhile_blanks hl hc hne, List.reverse_append, hback, List.reverse_reverse]

end Blank

namespace PortRange

/-- A port as it may be written: a numeral up to 65535, with blanks around it if one likes. -/
def Writes (part : List Char) (port : Nat) : Prop :=
  ∃ left numeral right, part = left ++ String.toList numeral ++ right ∧
    Blank.Blanks left ∧ Blank.Blanks right ∧ Decimal.Numeral numeral port ∧ port ≤ 65535

theorem numeral_nonblank {numeral : String} {port : Nat} (h : Decimal.Numeral numeral port) :
    (∀ c ∈ numeral.toList, Blank.isBlank c = false) ∧ numeral.toList ≠ [] := by
  obtain ⟨digits, hne, hd, ht, -⟩ := h
  have hdigits : ∀ c ∈ digits, Blank.isBlank c = false := fun c hc => Blank.isBlank_of_isDigit (hd c hc)
  rcases ht with ht | ht
  · rw [ht]
    exact ⟨hdigits, hne⟩
  · rw [ht]
    exact ⟨List.forall_mem_cons.mpr ⟨by decide, hdigits⟩, List.cons_ne_nil _ _⟩

theorem readPort_ok_iff (part : List Char) (port : Nat) : readPort part = .ok port ↔ Writes part port := by
  have hread : readPort part = .ok port ↔
      Decimal.Numeral (String.ofList (Blank.trimChars part)) port ∧ port ≤ 65535 := by
    rw [← show Decimal.maxUInt16 = 65535 from rfl, ← Decimal.read_ok_iff, Decimal.read, String.toList_ofList, readPort]
    cases Decimal.readChars Decimal.maxUInt16 (Blank.trimChars part) with
    | ok n => exact ⟨fun h => by cases h; rfl, fun h => by cases h; rfl⟩
    | error trouble => exact iff_of_false (fun h => by cases h) (fun h => by cases h)
  rw [hread]
  constructor
  · rintro ⟨hn, hle⟩
    obtain ⟨left, right, hpart, hl, hr⟩ := Blank.exists_trimChars part
    refine ⟨left, _, right, ?_, hl, hr, hn, hle⟩
    rwa [String.toList_ofList]
  · rintro ⟨left, numeral, right, rfl, hl, hr, hn, hle⟩
    obtain ⟨hc, hne⟩ := numeral_nonblank hn
    rw [Blank.trimChars_padded hl hr hc hne, String.ofList_toList]
    exact ⟨hn, hle⟩

/-- The hyphen that counts is the first. -/
theorem parse_eq {text : String} {before after : List Char} (ht : text.toList = before ++ '-' :: after)
    (hb : '-' ∉ before) : parse text = (do
      let low ← readPort before
      let high ← readPort after
      if low = 0 ∨ high < low then throw (.noPorts text)
      return { low, high }) := by
  have hopen : ∀ c ∈ before, decide (c ≠ '-') = true := fun c hc => decide_eq_true fun he => hb (he ▸ hc)
  simp only [parse, ht]
  rw [List.takeWhile_append_of_pos hopen, List.dropWhile_append_of_pos hopen,
    List.takeWhile_cons_of_neg (by decide), List.dropWhile_cons_of_neg (by decide), List.append_nil]

theorem parse_ok_iff (text : String) (low high : Nat) :
    parse text = .ok ⟨low, high⟩ ↔ ∃ before after, text.toList = before ++ '-' :: after ∧ '-' ∉ before ∧
      Writes before low ∧ Writes after high ∧ 1 ≤ low ∧ low ≤ high := by
  simp only [← readPort_ok_iff]
  constructor
  · intro h
    have hyphen : '-' ∈ text.toList := by
      by_contra hnone
      have hall : text.toList.dropWhile (· ≠ '-') = [] :=
        List.dropWhile_eq_nil_iff.mpr fun c hc => decide_eq_true fun he => hnone (he ▸ hc)
      simp only [parse, hall] at h
      cases h
    obtain ⟨before, after, ht, hb⟩ := List.eq_append_cons_of_mem hyphen
    rw [parse_eq ht hb] at h
    refine ⟨before, after, ht, hb, ?_⟩
    cases hlow : readPort before with
    | error trouble => rw [hlow] at h; cases h
    | ok first =>
      cases hhigh : readPort after with
      | error trouble => rw [hlow, hhigh] at h; cases h
      | ok last =>
        rw [hlow, hhigh] at h
        by_cases hempty : first = 0 ∨ last < first
        · simp only [bind, Except.bind, if_pos hempty] at h
          cases h
        · simp only [bind, Except.bind, if_neg hempty] at h
          cases h
          exact ⟨rfl, rfl, by omega, by omega⟩
  · rintro ⟨before, after, ht, hb, hlow, hhigh, hpos, hle⟩
    have hnonempty : ¬(low = 0 ∨ high < low) := by omega
    rw [parse_eq ht hb, hlow, hhigh]
    simp only [bind, Except.bind, if_neg hnonempty]
    rfl

theorem writes_toString {left right : List Char} (hl : Blank.Blanks left) (hr : Blank.Blanks right) {port : Nat}
    (h : port ≤ 65535) : Writes (left ++ (toString port).toList ++ right) port :=
  ⟨left, _, right, rfl, hl, hr, (Decimal.read_ok_iff _ _ _).mp (Decimal.read_toString 65535 port h)⟩

theorem parse_toString {low high : Nat} (hpos : 1 ≤ low) (hle : low ≤ high) (hmax : high ≤ 65535) {a b c d : String}
    (ha : Blank.Blanks a.toList) (hb : Blank.Blanks b.toList) (hc : Blank.Blanks c.toList)
    (hd : Blank.Blanks d.toList) :
    parse (a ++ toString low ++ b ++ "-" ++ c ++ toString high ++ d) = .ok ⟨low, high⟩ := by
  refine (parse_ok_iff _ _ _).mpr ⟨a.toList ++ (toString low).toList ++ b.toList,
    c.toList ++ (toString high).toList ++ d.toList, ?_, ?_,
    writes_toString ha hb (Nat.le_trans hle hmax), writes_toString hc hd hmax, hpos, hle⟩
  · have hhyphen : "-".toList = ['-'] := rfl
    simp only [String.toList_append, hhyphen, List.append_assoc, List.cons_append, List.nil_append]
  · rw [List.mem_append, List.mem_append]
    rintro ((h | h) | h)
    · exact absurd (ha _ h) (by decide)
    · exact absurd (Decimal.isDigit_toString low _ h) (by decide)
    · exact absurd (hb _ h) (by decide)

theorem port_inside {range : PortRange} (h : range.low ≤ range.high) (draw : Nat) :
    range.low ≤ range.port draw ∧ range.port draw ≤ range.high := by
  have hlt : draw % (range.high - range.low + 1) < range.high - range.low + 1 := Nat.mod_lt draw (Nat.succ_pos _)
  rw [port]
  omega

theorem exists_draw {range : PortRange} {n : Nat} (hl : range.low ≤ n) (hh : n ≤ range.high) :
    ∃ draw, range.port draw = n := by
  refine ⟨n - range.low, ?_⟩
  rw [port, Nat.mod_eq_of_lt (by omega)]
  omega

theorem tryPorts_bound (range : PortRange) (last : Fault) {before : List Attempt} (attempt : Attempt)
    (after : List Attempt) (hb : ∀ a ∈ before, a.fault ≠ none) (hf : attempt.fault = none) :
    range.tryPorts last (before ++ attempt :: after) = {
      tried := (before ++ [attempt]).map fun a => range.port a.draw
      result := .ok (range.port attempt.draw) } := by
  induction before generalizing last with
  | nil => simp only [List.nil_append, tryPorts, hf, List.map_cons, List.map_nil]
  | cons first before ih =>
    obtain ⟨hfirst, hrest⟩ := List.forall_mem_cons.mp hb
    obtain ⟨fault, hfault⟩ := Option.ne_none_iff_exists'.mp hfirst
    simp only [List.cons_append, tryPorts, hfault, ih fault hrest, List.map_cons]

theorem tryPorts_taken (range : PortRange) (last : Fault) {attempts : List Attempt} {fault : Fault}
    (hl : attempts.getLast?.bind Attempt.fault = some fault) (hf : ∀ a ∈ attempts, a.fault ≠ none) :
    range.tryPorts last attempts = {
      tried := attempts.map fun a => range.port a.draw
      result := .error fault } := by
  induction attempts generalizing last with
  | nil => cases hl
  | cons first attempts ih =>
    obtain ⟨hfirst, hrest⟩ := List.forall_mem_cons.mp hf
    obtain ⟨trouble, htrouble⟩ := Option.ne_none_iff_exists'.mp hfirst
    simp only [tryPorts, htrouble, List.map_cons]
    cases attempts with
    | nil =>
      have hsame : first.fault = some fault := hl
      rw [htrouble] at hsame
      cases hsame
      rfl
    | cons second attempts =>
      rw [List.getLast?_cons_cons] at hl
      rw [ih trouble hl hrest]

def drawn (range : PortRange) (attempt : Nat → Attempt) (count : Nat) : List Nat :=
  (List.range count).map fun i => range.port (attempt i).draw

/-- How a port of a range is bound for a transfer. -/
inductive Binds (range : PortRange) (attempt : Nat → Attempt) : Binding → Prop where
  | bound {n : Nat} (hr : range.low ≤ range.high) (hn : n < 16) (hb : ∀ i < n, (attempt i).fault ≠ none)
    (hf : (attempt n).fault = none) :
    Binds range attempt ⟨range.drawn attempt (n + 1), .ok (range.port (attempt n).draw)⟩
  | taken {fault : Fault} (hr : range.low ≤ range.high) (hf : ∀ i < 16, (attempt i).fault ≠ none)
    (hl : (attempt 15).fault = some fault) :
    Binds range attempt ⟨range.drawn attempt 16, .error fault⟩
  | empty {fault : Fault} (hr : range.high < range.low) (hf : fault.kind = .invalidInput) :
    Binds range attempt ⟨[], .error fault⟩

theorem map_drawn (range : PortRange) (attempt : Nat → Attempt) (count : Nat) :
    ((List.range count).map attempt).map (fun a => range.port a.draw) = range.drawn attempt count := by
  rw [drawn, List.map_map]
  rfl

variable {range : PortRange} {attempt : Nat → Attempt}

theorem bindOne_eq_tryPorts (hr : range.low ≤ range.high) : range.bindOne attempt =
    range.tryPorts ⟨.addrInUse, "Address already in use"⟩ ((List.range 16).map attempt) :=
  if_neg fun hempty => Nat.not_lt.mpr hr (of_decide_eq_true hempty)

theorem bindOne_bound (hr : range.low ≤ range.high) {n : Nat} (hn : n < 16)
    (hb : ∀ i < n, (attempt i).fault ≠ none) (hf : (attempt n).fault = none) :
    range.bindOne attempt = ⟨range.drawn attempt (n + 1), .ok (range.port (attempt n).draw)⟩ := by
  have hparts : List.range 16 = List.range n ++ n :: List.range' (n + 1) (15 - n) := by
    have happend := @List.range'_append_1 0 n (15 - n + 1)
    rw [Nat.zero_add, List.range'_succ, show n + (15 - n + 1) = 16 by omega] at happend
    rw [List.range_eq_range', List.range_eq_range', happend]
  have hbefore : ∀ a ∈ (List.range n).map attempt, a.fault ≠ none :=
    List.forall_mem_map.mpr fun i hi => hb i (List.mem_range.mp hi)
  rw [bindOne_eq_tryPorts hr, hparts, List.map_append, List.map_cons, tryPorts_bound range _ (attempt n) _ hbefore hf,
    ← List.map_singleton, ← List.map_append, ← List.range_succ, map_drawn]

theorem bindOne_taken (hr : range.low ≤ range.high) (hf : ∀ i < 16, (attempt i).fault ≠ none) {fault : Fault}
    (hl : (attempt 15).fault = some fault) :
    range.bindOne attempt = ⟨range.drawn attempt 16, .error fault⟩ := by
  have hall : ∀ a ∈ (List.range 16).map attempt, a.fault ≠ none :=
    List.forall_mem_map.mpr fun i hi => hf i (List.mem_range.mp hi)
  have hlast : ((List.range 16).map attempt).getLast?.bind Attempt.fault = some fault := hl
  rw [bindOne_eq_tryPorts hr, tryPorts_taken range _ hlast hall, map_drawn]

theorem bindOne_empty (hr : range.high < range.low) : range.bindOne attempt =
    ⟨[], .error ⟨.invalidInput, "Empty port range " ++ toString range.low ++ "-" ++ toString range.high⟩⟩ :=
  if_pos (decide_eq_true hr)

theorem bindOne_binds (range : PortRange) (attempt : Nat → Attempt) :
    Binds range attempt (range.bindOne attempt) := by
  by_cases hempty : range.high < range.low
  · rw [bindOne_empty hempty]
    exact .empty hempty rfl
  have hr : range.low ≤ range.high := Nat.not_lt.mp hempty
  by_cases hfree : ∃ n < 16, (attempt n).fault = none
  · obtain ⟨hn, hf⟩ := Nat.find_spec hfree
    have hb : ∀ i < Nat.find hfree, (attempt i).fault ≠ none := fun i hi hnone =>
      Nat.find_min hfree hi ⟨Nat.lt_trans hi hn, hnone⟩
    rw [bindOne_bound hr hn hb hf]
    exact .bound hr hn hb hf
  · have hf : ∀ i < 16, (attempt i).fault ≠ none := fun i hi hnone => hfree ⟨i, hi, hnone⟩
    obtain ⟨fault, hl⟩ := Option.ne_none_iff_exists'.mp (hf 15 (by decide))
    rw [bindOne_taken hr hf hl]
    exact .taken hr hf hl

theorem drawn_inside (hr : range.low ≤ range.high) (attempt : Nat → Attempt) (count : Nat) :
    ∀ port ∈ range.drawn attempt count, range.low ≤ port ∧ port ≤ range.high :=
  List.forall_mem_map.mpr fun i _ => port_inside hr (attempt i).draw

theorem length_drawn (range : PortRange) (attempt : Nat → Attempt) (count : Nat) :
    (range.drawn attempt count).length = count := by
  rw [drawn, List.length_map, List.length_range]

theorem Binds.confined {binding : Binding} (h : Binds range attempt binding) :
    binding.tried.length ≤ 16 ∧ (∀ port ∈ binding.tried, range.low ≤ port ∧ port ≤ range.high) ∧
      ∀ port, binding.result = .ok port → range.low ≤ port ∧ port ≤ range.high := by
  cases h with
  | bound hr hn hb hf =>
    refine ⟨by rw [length_drawn]; exact hn, drawn_inside hr attempt _, fun port hp => ?_⟩
    cases hp
    exact port_inside hr _
  | taken hr hf hl => exact ⟨by rw [length_drawn], drawn_inside hr attempt _, nofun⟩
  | empty hr hf => exact ⟨Nat.zero_le 16, nofun, nofun⟩

/-- A text is a range if it has a hyphen with a port before the first one and a port behind it, the first port is not
0, and the second is not below it. The ports of a range are tried in the order in which they are drawn, at most 16
of them, and the first that is free is taken; from an empty range none is drawn. -/
theorem parse_and_bind :
    (∀ text low high, parse text = .ok ⟨low, high⟩ ↔
      ∃ before after, text.toList = before ++ '-' :: after ∧ '-' ∉ before ∧
        Writes before low ∧ Writes after high ∧ 1 ≤ low ∧ low ≤ high) ∧
    (∀ low high, 1 ≤ low → low ≤ high → high ≤ 65535 → ∀ a b c d : String,
      Blank.Blanks a.toList → Blank.Blanks b.toList → Blank.Blanks c.toList → Blank.Blanks d.toList →
      parse (a ++ toString low ++ b ++ "-" ++ c ++ toString high ++ d) = .ok ⟨low, high⟩) ∧
    ∀ range attempt, Binds range attempt (range.bindOne attempt) ∧
      (range.bindOne attempt).tried.length ≤ 16 ∧
      (∀ port ∈ (range.bindOne attempt).tried, range.low ≤ port ∧ port ≤ range.high) ∧
      (∀ port, (range.bindOne attempt).result = .ok port → range.low ≤ port ∧ port ≤ range.high) ∧
      (range.high < range.low → (range.bindOne attempt).tried = []) ∧
      ∀ port, range.low ≤ port → port ≤ range.high → ∃ draw, range.port draw = port := by
  refine ⟨parse_ok_iff, fun low high hpos hle hmax a b c d ha hb hc hd => parse_toString hpos hle hmax ha hb hc hd,
    fun range attempt => ?_⟩
  have hbinds := bindOne_binds range attempt
  obtain ⟨hcount, htried, hresult⟩ := hbinds.confined
  refine ⟨hbinds, hcount, htried, hresult, fun hempty => ?_, fun port hl hh => exists_draw hl hh⟩
  rw [bindOne_empty hempty]

theorem parse_and_bind_spaced :
    parse " 7\t-\n9" = .ok ⟨7, 9⟩ ∧ (∃ draw, (⟨7, 9⟩ : PortRange).port draw = 8) ∧
      ((⟨9, 7⟩ : PortRange).bindOne fun _ => {}).tried = [] := by
  obtain ⟨-, hparse, hbind⟩ := parse_and_bind
  refine ⟨?_, (hbind ⟨7, 9⟩ fun _ => {}).2.2.2.2.2 8 (by decide) (by decide),
    (hbind ⟨9, 7⟩ fun _ => {}).2.2.2.2.1 (by decide)⟩
  exact hparse 7 9 (by decide) (by decide) (by decide) " " "\t" "\n" ""
    (List.forall_mem_singleton.mpr (by decide)) (List.forall_mem_singleton.mpr (by decide))
    (List.forall_mem_singleton.mpr (by decide)) nofun

end PortRange

end Tftp
