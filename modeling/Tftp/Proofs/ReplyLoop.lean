import Tftp.Proofs.Codec
import Tftp.Proofs.Dispatch

namespace Tftp

structure Mail where
  destination : Endpoint
  datagram : Datagram
deriving DecidableEq, Repr

abbrev Listeners := Endpoint → Option ServerConfig

namespace Listeners

/-- What comes back from the listening socket that a datagram reaches, if it reaches one. The connections of
that server have no part in it, as `ServerProcess.Attends` says. -/
def replies (listeners : Listeners) (ports : Admission.Ports) (mail : Mail) : List Mail :=
  match listeners mail.destination with
  | none => []
  | some config => (ServerProcess.answer config ports mail.datagram).map fun answer =>
      ⟨answer.destination, mail.destination, answer.packet.encode⟩

/-- One of the datagrams in flight arrives, and what comes back is in flight from then on. -/
inductive Delivers (listeners : Listeners) : List Mail → List Mail → Prop where
  | deliver (before after : List Mail) (mail : Mail) (ports : Admission.Ports) :
    Delivers listeners (before ++ mail :: after) (before ++ after ++ listeners.replies ports mail)

inductive Exchange (listeners : Listeners) : Nat → List Mail → List Mail → Prop where
  | rest (inFlight : List Mail) : Exchange listeners 0 inFlight inFlight
  | step {n : Nat} {inFlight next later : List Mail} (first : Delivers listeners inFlight next)
    (others : Exchange listeners n next later) : Exchange listeners (n + 1) inFlight later

end Listeners

namespace Mail

def back (mail : Mail) (code : ErrorCode) : Mail :=
  ⟨mail.datagram.source, mail.destination, (Packet.standardError code).encode⟩

structure Echoes (listeners : Listeners) (mail : Mail) : Prop where
  destination : (listeners mail.destination).isSome
  source : (listeners mail.datagram.source).isSome
  error : ∃ code message, Packet.decode mail.datagram.bytes = .ok (.error code message)

/-- A datagram that a listener may refuse, and whose sender, to all appearance, is a listener too. -/
def Provokes (listeners : Listeners) (mail : Mail) : Prop :=
  (listeners mail.datagram.source).isSome ∧ ∃ config, listeners mail.destination = some config ∧
    ∃ ports code, Admission.Verdict config ports mail.datagram (.error code)

end Mail

theorem ErrorCode.plain_message (code : ErrorCode) : Plain code.message := by
  rw [message]
  split <;> decide

theorem Packet.decode_standardError (code : ErrorCode) :
    decode (standardError code).encode = .ok (.error code code.message) :=
  decode_encode _ code.plain_message

theorem Admission.Verdict.of_error {datagram : Datagram} {code : ErrorCode} {message : String}
    (h : Packet.decode datagram.bytes = .ok (.error code message)) (config : ServerConfig) (ports : Ports) :
    Verdict config ports datagram (.error .illegalOperation) :=
  .foreign h nofun nofun

namespace Listeners

open Admission (Verdict)

variable {listeners : Listeners} {config : ServerConfig} {ports : Admission.Ports} {mail : Mail}

theorem replies_nowhere (h : listeners mail.destination = none) (ports : Admission.Ports) :
    listeners.replies ports mail = [] := by
  simp only [replies, h]

theorem replies_refused (hc : listeners mail.destination = some config) {code : ErrorCode}
    (h : Verdict config ports mail.datagram (.error code)) : listeners.replies ports mail = [mail.back code] := by
  simp only [replies, hc, ServerProcess.answer, ServerProcess.reply, h.eq]
  rfl

theorem replies_admitted (hc : listeners mail.destination = some config) {admission : Admission}
    (h : Verdict config ports mail.datagram (.ok admission)) : listeners.replies ports mail = [] := by
  simp only [replies, hc, ServerProcess.answer, ServerProcess.reply, h.eq, List.map_nil]

theorem replies_cases (listeners : Listeners) (ports : Admission.Ports) (mail : Mail) :
    listeners.replies ports mail = [] ∨ ∃ config code, listeners mail.destination = some config ∧
      Verdict config ports mail.datagram (.error code) ∧ listeners.replies ports mail = [mail.back code] := by
  cases hc : listeners mail.destination with
  | none => exact .inl (replies_nowhere hc ports)
  | some config =>
    obtain ⟨outcome, h⟩ := Admission.exists_verdict config ports mail.datagram
    cases outcome with
    | ok admission => exact .inl (replies_admitted hc h)
    | error code => exact .inr ⟨config, code, rfl, h, replies_refused hc h⟩

theorem replies_back (hc : listeners mail.datagram.source = some config) (code : ErrorCode)
    (ports : Admission.Ports) :
    listeners.replies ports (mail.back code) = [(mail.back code).back .illegalOperation] :=
  replies_refused hc (.of_error (Packet.decode_standardError code) config ports)

theorem back_echoes (hd : (listeners mail.destination).isSome) (hs : (listeners mail.datagram.source).isSome)
    (code : ErrorCode) : (mail.back code).Echoes listeners :=
  ⟨hs, hd, code, code.message, Packet.decode_standardError code⟩

theorem replies_echoes (h : mail.Echoes listeners) (ports : Admission.Ports) :
    ∃ echo ∈ listeners.replies ports mail, echo.Echoes listeners := by
  obtain ⟨config, hc⟩ := Option.isSome_iff_exists.mp h.destination
  obtain ⟨code, message, herror⟩ := h.error
  rw [replies_refused hc (.of_error herror config ports)]
  exact ⟨_, List.mem_cons_self, back_echoes h.destination h.source _⟩

theorem exists_delivers {inFlight : List Mail} (h : mail ∈ inFlight) (ports : Admission.Ports) :
    ∃ later, Delivers listeners inFlight later ∧ ∀ reply ∈ listeners.replies ports mail, reply ∈ later := by
  obtain ⟨before, after, rfl⟩ := List.append_of_mem h
  exact ⟨_, .deliver before after mail ports, fun reply hr => List.mem_append_right _ hr⟩

theorem Delivers.mem {inFlight later : List Mail} (h : Delivers listeners inFlight later) :
    ∃ ports arrived, (∀ other ∈ inFlight, other ≠ arrived → other ∈ later) ∧
      ∀ reply ∈ listeners.replies ports arrived, reply ∈ later := by
  obtain ⟨before, after, arrived, ports⟩ := h
  refine ⟨ports, arrived, fun other ho hne => ?_, fun reply hr => List.mem_append_right _ hr⟩
  refine List.mem_append_left _ (List.mem_append.mpr ?_)
  exact (List.mem_append.mp ho).imp_right fun ho => (List.mem_cons.mp ho).resolve_left hne

theorem Delivers.length_le {inFlight later : List Mail} (h : Delivers listeners inFlight later) :
    later.length ≤ inFlight.length := by
  obtain ⟨before, after, arrived, ports⟩ := h
  have hreplies : (listeners.replies ports arrived).length ≤ 1 := by
    rcases replies_cases listeners ports arrived with hnone | ⟨_, _, _, _, hone⟩
    · rw [hnone]
      exact Nat.zero_le 1
    · rw [hone]
      exact Nat.le_refl 1
  simp only [List.length_append, List.length_cons]
  omega

theorem Delivers.echoes {inFlight later : List Mail} (h : Delivers listeners inFlight later)
    (he : ∃ echo ∈ inFlight, echo.Echoes listeners) : ∃ echo ∈ later, echo.Echoes listeners := by
  obtain ⟨echo, hmem, hecho⟩ := he
  obtain ⟨ports, arrived, hkept, hreplies⟩ := h.mem
  by_cases heq : echo = arrived
  · subst heq
    obtain ⟨next, hnext, hechoes⟩ := replies_echoes hecho ports
    exact ⟨next, hreplies next hnext, hechoes⟩
  · exact ⟨echo, hkept echo hmem heq, hecho⟩

theorem Exchange.echoes {n : Nat} {inFlight later : List Mail} (h : Exchange listeners n inFlight later)
    (he : ∃ echo ∈ inFlight, echo.Echoes listeners) : ∃ echo ∈ later, echo.Echoes listeners := by
  induction h with
  | rest => exact he
  | step first others ih => exact ih (first.echoes he)

theorem exchange_of_echoes (n : Nat) {inFlight : List Mail} (he : ∃ echo ∈ inFlight, echo.Echoes listeners) :
    ∃ later, Exchange listeners n inFlight later := by
  induction n generalizing inFlight with
  | zero => exact ⟨inFlight, .rest inFlight⟩
  | succ n ih =>
    obtain ⟨echo, hmem, hecho⟩ := he
    obtain ⟨next, hdelivers, -⟩ := exists_delivers hmem fun _ => {}
    obtain ⟨later, hexchange⟩ := ih (hdelivers.echoes ⟨echo, hmem, hecho⟩)
    exact ⟨later, .step hdelivers hexchange⟩

theorem exchange_of_provokes (n : Nat) {inFlight : List Mail} (hmem : mail ∈ inFlight)
    (h : mail.Provokes listeners) : ∃ later, Exchange listeners n inFlight later := by
  obtain ⟨hsource, config, hc, ports, code, hverdict⟩ := h
  cases n with
  | zero => exact ⟨inFlight, .rest inFlight⟩
  | succ n =>
    obtain ⟨next, hdelivers, hnext⟩ := exists_delivers hmem ports
    rw [replies_refused hc hverdict] at hnext
    have hecho := back_echoes (Option.isSome_of_eq_some hc) hsource code
    obtain ⟨later, hexchange⟩ := exchange_of_echoes n ⟨_, hnext _ List.mem_cons_self, hecho⟩
    exact ⟨later, .step hdelivers hexchange⟩

/-- How many deliveries are left if nothing in flight provokes anything: what is addressed to a listener may
come back once. -/
def budget (listeners : Listeners) (inFlight : List Mail) : Nat :=
  inFlight.length + inFlight.countP fun mail => (listeners mail.destination).isSome

theorem budget_append (listeners : Listeners) (first second : List Mail) :
    listeners.budget (first ++ second) = listeners.budget first + listeners.budget second := by
  simp only [budget, List.length_append, List.countP_append]
  omega

theorem budget_cons (listeners : Listeners) (mail : Mail) (inFlight : List Mail) :
    listeners.budget (mail :: inFlight) = listeners.budget [mail] + listeners.budget inFlight :=
  budget_append listeners [mail] inFlight

theorem budget_le (listeners : Listeners) (inFlight : List Mail) :
    listeners.budget inFlight ≤ 2 * inFlight.length := by
  have hcount : (inFlight.countP fun mail => (listeners mail.destination).isSome) ≤ inFlight.length :=
    List.countP_le_length
  rw [budget]
  omega

theorem budget_heard (h : listeners mail.destination = some config) : listeners.budget [mail] = 2 := by
  rw [budget, List.countP_singleton, h]
  rfl

theorem budget_unheard (h : listeners mail.destination = none) : listeners.budget [mail] = 1 := by
  rw [budget, List.countP_singleton, h]
  rfl

theorem replies_quiet (h : ¬mail.Provokes listeners) (ports : Admission.Ports) :
    listeners.budget (listeners.replies ports mail) < listeners.budget [mail] ∧
      ∀ reply ∈ listeners.replies ports mail, ¬reply.Provokes listeners := by
  rcases replies_cases listeners ports mail with hnone | ⟨config, code, hc, hverdict, hone⟩
  · rw [hnone]
    exact ⟨Nat.lt_of_lt_of_le Nat.zero_lt_one (Nat.le_add_right 1 _), fun _ hr => absurd hr List.not_mem_nil⟩
  · have hback : listeners (mail.back code).destination = none := by
      cases hs : listeners (mail.back code).destination with
      | none => rfl
      | some other => exact absurd ⟨Option.isSome_of_eq_some hs, config, hc, ports, code, hverdict⟩ h
    rw [hone]
    refine ⟨?_, fun reply hr => ?_⟩
    · rw [budget_heard hc, budget_unheard hback]
      exact Nat.one_lt_two
    · rw [List.mem_singleton.mp hr]
      rintro ⟨-, other, hother, -⟩
      rw [hback] at hother
      cases hother

theorem Delivers.budget_lt {inFlight later : List Mail} (h : Delivers listeners inFlight later)
    (hquiet : ∀ mail ∈ inFlight, ¬mail.Provokes listeners) :
    listeners.budget later < listeners.budget inFlight ∧ ∀ mail ∈ later, ¬mail.Provokes listeners := by
  obtain ⟨before, after, arrived, ports⟩ := h
  have harrived : arrived ∈ before ++ arrived :: after := List.mem_append_right _ List.mem_cons_self
  obtain ⟨hbudget, hreplies⟩ := replies_quiet (hquiet arrived harrived) ports
  refine ⟨?_, fun mail hm => ?_⟩
  · rw [budget_append, budget_append, budget_append, budget_cons]
    omega
  · rcases List.mem_append.mp hm with hkept | hreply
    · refine hquiet mail (List.mem_append.mpr ?_)
      exact (List.mem_append.mp hkept).imp_right (List.mem_cons_of_mem arrived)
    · exact hreplies mail hreply

theorem Exchange.le_budget {n : Nat} {inFlight later : List Mail} (h : Exchange listeners n inFlight later)
    (hquiet : ∀ mail ∈ inFlight, ¬mail.Provokes listeners) : n ≤ listeners.budget inFlight := by
  induction h with
  | rest => exact Nat.zero_le _
  | step first others ih =>
    obtain ⟨hbudget, hquiet'⟩ := first.budget_lt hquiet
    exact Nat.succ_le_of_lt (Nat.lt_of_le_of_lt (ih hquiet') hbudget)

theorem Exchange.le_of_quiet {n : Nat} {inFlight later : List Mail} (h : Exchange listeners n inFlight later)
    (hquiet : ∀ mail ∈ inFlight, ¬mail.Provokes listeners) : n ≤ 2 * inFlight.length := by
  exact (h.le_budget hquiet).trans (budget_le listeners inFlight)

/-- What listeners make of each other's answers. -/
structure ReplyEndlessly (listeners : Listeners) : Prop where
  answered : ∀ ports others mail reply config, reply ∈ listeners.replies ports mail →
    listeners reply.destination = some config →
      listeners.replies others reply = [reply.back .illegalOperation]
  steady : ∀ n inFlight later, Exchange listeners n inFlight later → later.length ≤ inFlight.length
  everlasting : ∀ n inFlight later, Exchange listeners n inFlight later →
    (∃ echo ∈ inFlight, echo.Echoes listeners) → ∃ echo ∈ later, echo.Echoes listeners
  /-- An exchange can go on for ever if and only if one listener can be made to refuse what seems to come
  from another. -/
  endless_iff : ∀ inFlight, (∀ n, ∃ later, Exchange listeners n inFlight later) ↔
    ∃ mail ∈ inFlight, mail.Provokes listeners
  bounded : ∀ inFlight, (∀ mail ∈ inFlight, ¬mail.Provokes listeners) →
    ∀ n later, Exchange listeners n inFlight later → n ≤ 2 * inFlight.length

theorem Exchange.length_le {n : Nat} {inFlight later : List Mail} (h : Exchange listeners n inFlight later) :
    later.length ≤ inFlight.length := by
  induction h with
  | rest => exact Nat.le_refl _
  | step first others ih => exact ih.trans first.length_le

/-- Listeners answer each other's answers, whoever they are and however they are set up. -/
theorem listeners_replyEndlessly (listeners : Listeners) : ReplyEndlessly listeners where
  answered ports others mail reply config hr hc := by
    rcases replies_cases listeners ports mail with hnone | ⟨_, code, -, -, hone⟩
    · rw [hnone] at hr
      cases hr
    · rw [hone] at hr
      rw [List.mem_singleton.mp hr] at hc ⊢
      exact replies_back hc code others
  steady n inFlight later h := h.length_le
  everlasting n inFlight later h := h.echoes
  endless_iff inFlight := by
    refine ⟨fun hendless => ?_, fun ⟨mail, hmem, h⟩ n => exchange_of_provokes n hmem h⟩
    by_contra hnone
    have hquiet : ∀ mail ∈ inFlight, ¬mail.Provokes listeners := fun mail hmem h => hnone ⟨mail, hmem, h⟩
    obtain ⟨later, h⟩ := hendless (2 * inFlight.length + 1)
    exact absurd (h.le_of_quiet hquiet) (Nat.not_succ_le_self _)
  bounded inFlight hquiet n later h := h.le_of_quiet hquiet

def neighbours : Listeners := fun endpoint =>
  if endpoint = { ip := .v4 127 0 0 1, port := 69 } then some { root := "/left" }
  else if endpoint = { ip := .v4 127 0 0 1, port := 6969 } then some { root := "/right" }
  else none

def spark : Mail where
  destination := { ip := .v4 127 0 0 1, port := 69 }
  datagram := { source := { ip := .v4 127 0 0 1, port := 6969 }, bytes := [] }

theorem spark_spreads :
    neighbours.replies (fun _ => {}) spark = [spark.back .illegalOperation] ∧
      neighbours.replies (fun _ => {}) (spark.back .illegalOperation) =
        [(spark.back .illegalOperation).back .illegalOperation] ∧
      ∀ n, ∃ later, Exchange neighbours n [spark] later := by
  refine ⟨by decide, by decide, fun n => ?_⟩
  refine exchange_of_provokes n List.mem_cons_self ⟨rfl, _, rfl, fun _ => {}, .illegalOperation, ?_⟩
  exact (Admission.ofDatagram_eq_iff _ _ _ _).mp rfl

end Listeners

end Tftp
