import Tftp.Mode.Netascii

namespace Tftp

namespace Netascii

theorem encode_append (left right : Bytes) : encode (left ++ right) = encode left ++ encode right :=
  List.flatMap_append

theorem length_encodeOctet_pos (b : UInt8) : 0 < (encodeOctet b).length := by
  unfold encodeOctet
  split
  · simp
  · split <;> simp

theorem length_le_encode (bytes : Bytes) : bytes.length ≤ (encode bytes).length := by
  induction bytes with
  | nil => simp
  | cons b bytes ih =>
    have hb := length_encodeOctet_pos b
    have he : encode (b :: bytes) = encodeOctet b ++ encode bytes := List.flatMap_cons
    rw [he, List.length_append, List.length_cons]
    omega

namespace Decoder

theorem decode_append (decoder : Decoder) (left right : Bytes) :
    decoder.decode (left ++ right) =
      (((decoder.decode left).1.decode right).1,
        (decoder.decode left).2 ++ ((decoder.decode left).1.decode right).2) :=
  Transducer.run_append step decoder left right

def whole (decoder : Decoder) (bytes : Bytes) : Bytes :=
  (decoder.decode bytes).2 ++ (decoder.decode bytes).1.finish.2

theorem whole_cons (decoder : Decoder) (b : UInt8) (bytes : Bytes) :
    decoder.whole (b :: bytes) = (decoder.step b).2 ++ (decoder.step b).1.whole bytes := by
  simp only [whole, decode, Transducer.run_cons, List.append_assoc]

theorem hostForm_cons_plain (b : UInt8) (bytes : Bytes) (hb : b ≠ cr) :
    hostForm (b :: bytes) = b :: hostForm bytes := by
  cases bytes with
  | nil => rfl
  | cons c bytes => simp only [hostForm, if_neg hb]

theorem hostForm_cr_cons (b : UInt8) (bytes : Bytes) :
    hostForm (cr :: b :: bytes) =
      if b = cr then cr :: hostForm (cr :: bytes)
      else (if b = lf then [lf] else if b = nul then [cr] else [cr, b]) ++ hostForm bytes := by
  rw [hostForm, if_pos rfl]
  by_cases hc : b = cr
  · subst b
    rw [if_neg (by decide), if_neg (by decide), if_pos rfl, if_pos rfl]
  · by_cases hl : b = lf
    · simp [hl, if_neg (show ¬lf = cr by decide)]
    · by_cases hn : b = nul <;> simp [hl, hn, hc, if_neg (show ¬nul = cr by decide),
        if_neg (show ¬nul = lf by decide)]

theorem whole_eq_hostForm (bytes : Bytes) :
    (⟨false⟩ : Decoder).whole bytes = hostForm bytes ∧
      (⟨true⟩ : Decoder).whole bytes = hostForm (cr :: bytes) := by
  induction bytes with
  | nil => exact ⟨rfl, rfl⟩
  | cons b bytes ih =>
    obtain ⟨hf, ht⟩ := ih
    constructor
    · by_cases hb : b = cr
      · subst b
        rw [whole_cons]
        exact ht
      · rw [whole_cons, hostForm_cons_plain b bytes hb]
        simp only [step, Bool.false_eq_true, if_false, if_neg hb, hf, List.singleton_append]
    · rw [whole_cons, hostForm_cr_cons]
      by_cases hc : b = cr
      · subst b
        rw [if_pos rfl, ← ht]
        rfl
      · simp only [step, if_true, if_neg hc]
        split
        · simp only [hf]
        · split <;> simp only [hf]

theorem decode_encodeOctet (b : UInt8) :
    (⟨false⟩ : Decoder).decode (encodeOctet b) = (⟨false⟩, [b]) := by
  unfold encodeOctet
  split
  · next hc => subst b; rfl
  · next hc =>
    split
    · next hl => subst b; rfl
    · simp only [decode, Transducer.run_cons, Transducer.run_nil, step, Bool.false_eq_true,
        if_false, if_neg hc, List.append_nil]

theorem decode_encode (bytes : Bytes) :
    (⟨false⟩ : Decoder).decode (encode bytes) = (⟨false⟩, bytes) := by
  induction bytes with
  | nil => rfl
  | cons b bytes ih =>
    have he : encode (b :: bytes) = encodeOctet b ++ encode bytes := List.flatMap_cons
    rw [he, decode_append, decode_encodeOctet, ih]
    rfl

end Decoder

theorem hostForm_encode (bytes : Bytes) : hostForm (encode bytes) = bytes := by
  rw [← (Decoder.whole_eq_hostForm (encode bytes)).1, Decoder.whole, Decoder.decode_encode]
  exact List.append_nil bytes

namespace Decoder

/-- The decoder after some pieces of a text, and what came of each of them. -/
def feed (decoder : Decoder) (pieces : List Bytes) : Decoder × List Bytes :=
  Transducer.run (fun d piece => ((d.decode piece).1, [(d.decode piece).2])) decoder pieces

theorem feed_cons (decoder : Decoder) (piece : Bytes) (pieces : List Bytes) :
    decoder.feed (piece :: pieces) =
      (((decoder.decode piece).1.feed pieces).1,
        (decoder.decode piece).2 :: ((decoder.decode piece).1.feed pieces).2) := by
  rw [feed, Transducer.run_cons]
  rfl

theorem finish_fst (decoder : Decoder) : decoder.finish.1 = {} := by
  obtain ⟨held⟩ := decoder
  cases held <;> rfl

theorem decode_flatten (decoder : Decoder) (pieces : List Bytes) :
    decoder.decode pieces.flatten = ((decoder.feed pieces).1, (decoder.feed pieces).2.flatten) := by
  induction pieces generalizing decoder with
  | nil => rfl
  | cons piece pieces ih => rw [List.flatten_cons, decode_append, ih, feed_cons, List.flatten_cons]

/-- What has come of the beginning of a text is the beginning of what comes of the text. -/
theorem decode_prefix (decoder : Decoder) {start text : Bytes} (h : start <+: text) :
    (decoder.decode start).2 <+: (decoder.decode text).2 := by
  obtain ⟨rest, rfl⟩ := h
  rw [decode_append]
  exact List.prefix_append _ _

/-- A text that comes in pieces is decoded as the whole of it is, and the wire form of a text comes to that
text. Before its last piece has come nothing is put out that does not belong to it. -/
theorem feed_hostForm (pieces : List Bytes) :
    (feed {} pieces).2.flatten ++ (feed {} pieces).1.finish.2 = hostForm pieces.flatten ∧
      (feed {} pieces).1.finish.1 = {} ∧
      (∀ bytes, pieces.flatten = encode bytes →
        (feed {} pieces).2.flatten = bytes ∧ (feed {} pieces).1.finish.2 = []) ∧
      ∀ bytes, pieces.flatten <+: encode bytes → (feed {} pieces).2.flatten <+: bytes := by
  have hflatten := decode_flatten {} pieces
  have hwhole := (whole_eq_hostForm pieces.flatten).1
  rw [whole, hflatten] at hwhole
  refine ⟨hwhole, finish_fst _, fun bytes h => ?_, fun bytes h => ?_⟩
  · have hdecode := decode_encode bytes
    rw [← h, hflatten] at hdecode
    obtain ⟨hlast, hput⟩ := Prod.mk.inj hdecode
    exact ⟨hput, by rw [hlast]; rfl⟩
  · have hprefix := decode_prefix {} h
    rw [hflatten, decode_encode] at hprefix
    exact hprefix

theorem splitPairs_hostForm :
    (feed {} [[13], [13], [], [10, 97, 13], [98, 13]]).2.flatten ++
        (feed {} [[13], [13], [], [10, 97, 13], [98, 13]]).1.finish.2 = [13, 10, 97, 13, 98, 13] ∧
      (feed {} [[13], [0, 13], [10]]).2.flatten = [13, 10] ∧
      (feed {} [[13], [0, 13]]).2.flatten <+: [13, 10] :=
  ⟨(feed_hostForm [[13], [13], [], [10, 97, 13], [98, 13]]).1,
    ((feed_hostForm [[13], [0, 13], [10]]).2.2.1 [13, 10] (by decide)).1,
    (feed_hostForm [[13], [0, 13]]).2.2.2 [13, 10] (by decide)⟩

end Decoder

end Netascii

namespace Mode

open Netascii

theorem wireForm_append (mode : Mode) (left right : Bytes) :
    mode.wireForm (left ++ right) = mode.wireForm left ++ mode.wireForm right := by
  cases mode with
  | octet => rfl
  | netascii => exact encode_append left right

@[simp] theorem wireForm_nil (mode : Mode) : mode.wireForm [] = [] := by
  cases mode <;> rfl

theorem length_le_wireForm (mode : Mode) (bytes : Bytes) :
    bytes.length ≤ (mode.wireForm bytes).length := by
  cases mode with
  | octet => exact Nat.le_refl _
  | netascii => exact length_le_encode bytes

theorem hostForm_wireForm (mode : Mode) (bytes : Bytes) :
    mode.hostForm (mode.wireForm bytes) = bytes := by
  cases mode with
  | octet => rfl
  | netascii => exact hostForm_encode bytes

def landed : Mode → Bytes → Bytes
  | .octet, arrived => arrived
  | .netascii, arrived => (({} : Decoder).decode arrived).2

def heldBack : Mode → Bytes → Bytes
  | .octet, _ => []
  | .netascii, arrived => (({} : Decoder).decode arrived).1.finish.2

theorem heldBack_cases (mode : Mode) (arrived : Bytes) :
    mode.heldBack arrived = [] ∨ mode = .netascii ∧ mode.heldBack arrived = [cr] := by
  cases mode with
  | octet => exact .inl rfl
  | netascii =>
    rw [heldBack, Decoder.finish]
    split
    · exact .inr ⟨rfl, rfl⟩
    · exact .inl rfl

theorem landed_append_heldBack (mode : Mode) (arrived : Bytes) :
    mode.landed arrived ++ mode.heldBack arrived = mode.hostForm arrived := by
  cases mode with
  | octet => exact List.append_nil arrived
  | netascii => exact (Decoder.whole_eq_hostForm arrived).1

end Mode

end Tftp
