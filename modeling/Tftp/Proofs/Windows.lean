import Tftp.Script.Waiting

namespace Tftp

structure Arrival where
  time : Nat
  datagram : Datagram
deriving DecidableEq, Repr

def Session.window (session : Session) : Nat :=
  session.timeout * 1000000

def Peer.Admits (peer : Peer) (source : Endpoint) : Prop :=
  match peer with
  | unconfirmed _ => True
  | fixed endpoint => endpoint = source

/-- What a datagram leads to: it fixes the peer if it is listened to, and then its octets count. -/
inductive Session.Hears (session : Session) (datagram : Datagram) : Session × Except ExchangeFailure Packet → Prop where
  | packet {packet : Packet} (ha : session.peer.Admits datagram.source)
    (hd : Packet.decode datagram.bytes = .ok packet) :
    Hears session datagram ({ session with peer := .fixed datagram.source }, .ok packet)
  | malformed {malformation : Malformation} (ha : session.peer.Admits datagram.source)
    (hd : Packet.decode datagram.bytes = .error malformation) :
    Hears session datagram
      ({ session with peer := .fixed datagram.source }, .error (.malformed malformation.message))
  | stranger (ha : ¬session.peer.Admits datagram.source) :
    Hears session datagram (session, .error (.wrongPeer datagram.source))

theorem Session.recognize_admitted {session : Session} {source : Endpoint} (h : session.peer.Admits source) :
    session.recognize source = .ok { session with peer := .fixed source } := by
  obtain ⟨peer, timeout⟩ := session
  cases peer with
  | unconfirmed endpoint => rfl
  | fixed endpoint =>
    have hsource : endpoint = source := h
    rw [← hsource]
    exact if_pos rfl

theorem Session.recognize_stranger {session : Session} {source : Endpoint} (h : ¬session.peer.Admits source) :
    session.recognize source = .error (.wrongPeer source) := by
  obtain ⟨peer, timeout⟩ := session
  cases peer with
  | unconfirmed endpoint => exact absurd trivial h
  | fixed endpoint => exact if_neg h

theorem Session.read_hears (session : Session) (datagram : Datagram) :
    session.Hears datagram (session.read datagram) := by
  by_cases ha : session.peer.Admits datagram.source
  · rw [read, recognize_admitted ha]
    cases hd : Packet.decode datagram.bytes with
    | ok packet => exact .packet ha hd
    | error malformation => exact .malformed ha hd
  · rw [read, recognize_stranger ha]
    exact .stranger ha

theorem Session.Hears.ne_timeout {session : Session} {datagram : Datagram}
    {outcome : Session × Except ExchangeFailure Packet} (h : session.Hears datagram outcome) :
    outcome.2 ≠ .error .timeout := by
  cases h <;> exact fun he => by cases he

theorem Session.Hears.timeout_eq {session : Session} {datagram : Datagram}
    {outcome : Session × Except ExchangeFailure Packet} (h : session.Hears datagram outcome) :
    outcome.1.timeout = session.timeout := by
  cases h <;> rfl

namespace Exchange

inductive Entry where
  | sent (time : Nat) (transmission : Transmission)
  | listened (since till : Nat)
deriving DecidableEq, Repr

structure Wait where
  session : Session
  queue : List Arrival
  now : Nat
  result : Except ExchangeFailure Packet
  record : List Entry

def entries (time : Nat) (sent : List Transmission) : List Entry :=
  sent.map (.sent time)

def heard? (session : Session) (queue : List Arrival) (now : Nat) : Option Wait :=
  match queue with
  | [] => none
  | arrival :: queue =>
    if now + session.window < arrival.time then none
    else
      let (next, result) := session.read arrival.datagram
      let time := max now arrival.time
      some { session := next, queue, now := time, result, record := [.listened now time] }

/-- The window that opens now, and the `left` windows that may follow it. -/
def follow (link : Link) (session : Session) (queue : List Arrival) (repeated : Option Packet) :
    Nat → Nat → Wait
  | 0, now =>
    let close := now + session.window
    (heard? session queue now).getD
      { session, queue, now := close, result := .error .timeout, record := [.listened now close] }
  | left + 1, now =>
    let close := now + session.window
    (heard? session queue now).getD <|
      let opened := openWindow link session repeated (left + 1)
      let record := .listened now close :: entries close opened.sent
      match opened.state with
      | .failed failure => { session, queue, now := close, result := .error failure, record }
      | .waiting _ =>
        let later := follow link session queue repeated left close
        { later with record := record ++ later.record }

def conduct (link : Link) (session : Session) (queue : List Arrival) (now : Nat) (opened : Move Progress) : Wait :=
  match opened.state with
  | .failed failure =>
    { session, queue, now, result := .error failure, record := entries now opened.sent }
  | .waiting exchange =>
    let wait := follow link session queue exchange.repeated exchange.left now
    { wait with record := entries now opened.sent ++ wait.record }

variable {link : Link} {session : Session} {queue : List Arrival} {repeated : Option Packet}

theorem follow_expire {left now : Nat} (hq : heard? session queue now = none) :
    follow link session queue repeated left now =
      let wait := conduct link session queue (now + session.window) (expire link session { repeated, left })
      { wait with record := .listened now (now + session.window) :: wait.record } := by
  cases left with
  | zero =>
    rw [follow, hq]
    rfl
  | succ left =>
    rw [follow, hq, Option.getD_none]
    simp only [conduct, expire]
    cases repeated with
    | none => rfl
    | some packet =>
      rw [openWindow]
      cases Session.send link packet <;> rfl

def sentIn (record : List Entry) : List Transmission :=
  record.filterMap fun
    | .sent _ transmission => some transmission
    | .listened _ _ => none

theorem sentIn_append (record more : List Entry) : sentIn (record ++ more) = sentIn record ++ sentIn more :=
  List.filterMap_append

theorem sentIn_listened (since till : Nat) (record : List Entry) :
    sentIn (.listened since till :: record) = sentIn record := rfl

theorem sentIn_entries (time : Nat) (sent : List Transmission) : sentIn (entries time sent) = sent := by
  rw [sentIn, entries, List.filterMap_map]
  exact List.filterMap_some

theorem follow_silence (left now : Nat) :
    let wait := follow link session [] repeated left now
    let silence := Script.silence link session repeated left
    wait.session = session ∧ wait.queue = [] ∧ wait.result = .error silence.failure ∧
      sentIn wait.record = silence.sent ∧ wait.now = now + silence.windows * session.window := by
  induction left generalizing now with
  | zero =>
    refine ⟨rfl, rfl, rfl, rfl, ?_⟩
    change now + session.window = now + 1 * session.window
    rw [Nat.one_mul]
  | succ left ih =>
    obtain ⟨hsession, hqueue, hresult, hsent, hnow⟩ := ih (now + session.window)
    rw [follow, Script.silence, show heard? session [] now = none from rfl, Option.getD_none]
    simp only
    cases (openWindow link session repeated (left + 1)).state with
    | failed failure =>
      refine ⟨rfl, rfl, rfl, ?_, by rw [Nat.one_mul]⟩
      rw [sentIn_listened, sentIn_entries]
    | waiting exchange =>
      refine ⟨hsession, hqueue, hresult, ?_, ?_⟩
      · rw [sentIn_append, sentIn_listened, sentIn_entries, hsent]
      · rw [hnow, Nat.succ_mul, Nat.add_assoc, Nat.add_comm session.window]

/-- A script waits as an exchange does when all that comes in is there before it begins. -/
theorem await_conduct (now : Nat) (opened : Move Progress) (hq : ∀ arrival ∈ queue, arrival.time ≤ now) :
    let wait := conduct link session queue now opened
    Script.await link session (queue.map Arrival.datagram) opened =
      { session := wait.session, queue := wait.queue.map Arrival.datagram, result := wait.result
        sent := sentIn wait.record, elapsed := (wait.now - now) / 1000000 } := by
  rw [Script.await, conduct]
  cases opened.state with
  | failed failure =>
    simp only [sentIn_entries, Nat.sub_self, Nat.zero_div]
  | waiting exchange =>
    cases queue with
    | nil =>
      obtain ⟨hsession, hqueue, hresult, hsent, hnow⟩ :=
        @follow_silence link session exchange.repeated exchange.left now
      have helapsed : ∀ windows, (now + windows * session.window - now) / 1000000 = windows * session.timeout := by
        intro windows
        rw [Nat.add_sub_cancel_left, Session.window, ← Nat.mul_assoc, Nat.mul_div_cancel _ (by decide)]
      simp only [List.map_nil, sentIn_append, sentIn_entries, hsession, hqueue, hresult, hsent, hnow, helapsed]
    | cons arrival queue =>
      have htime := hq arrival List.mem_cons_self
      have hheard : heard? session (arrival :: queue) now = some {
          session := (session.read arrival.datagram).1, queue, now, result := (session.read arrival.datagram).2
          record := [.listened now now] } := by
        rw [heard?, if_neg (by omega), Nat.max_eq_left htime]
      have hfollow : follow link session (arrival :: queue) exchange.repeated exchange.left now = {
          session := (session.read arrival.datagram).1, queue, now, result := (session.read arrival.datagram).2
          record := [.listened now now] } := by
        cases exchange.left <;> rw [follow, hheard, Option.getD_some]
      simp only [List.map_cons, hfollow, sentIn_append, sentIn_entries, sentIn_listened, Nat.sub_self, Nat.zero_div]
      rw [show sentIn [] = [] from rfl, List.append_nil]

def rounds (session : Session) (repeated : Option Packet) (till : Nat) : Nat → Nat → List Entry
  | 0, _ => []
  | n + 1, now =>
    entries now (repeated.toList.map session.address) ++ .listened now (min (now + session.window) till) ::
      rounds session repeated till n (now + session.window)

/-- An exchange of at most `limit` windows from now on. -/
structure Conducted (session : Session) (queue : List Arrival) (repeated : Option Packet) (limit now : Nat)
    (wait : Wait) : Prop where
  rounds : ∃ n, 0 < n ∧ n ≤ limit ∧ wait.record = rounds session repeated wait.now n now ∧
    now + (n - 1) * session.window ≤ wait.now ∧ wait.now ≤ now + n * session.window
  /-- The first datagram decides, and nothing is waited for any more. -/
  heard : ∀ arrival rest, queue = arrival :: rest → arrival.time ≤ now + limit * session.window →
    wait.queue = rest ∧ wait.now = max now arrival.time ∧
      session.Hears arrival.datagram (wait.session, wait.result)
  silent : (∀ arrival ∈ queue.head?, now + limit * session.window < arrival.time) →
    wait.session = session ∧ wait.queue = queue ∧ wait.now = now + limit * session.window ∧
      wait.result = .error .timeout

theorem openWindow_carried (hs : ∀ packet, repeated = some packet → Session.send link packet = .ok ()) (left : Nat) :
    openWindow link session repeated (left + 1) =
      { state := .waiting { repeated, left }, sent := repeated.toList.map session.address } := by
  cases repeated with
  | none => rfl
  | some packet => simp [openWindow, hs packet rfl]

theorem heard?_none {now : Nat} (h : heard? session queue now = none) :
    ∀ arrival ∈ queue.head?, now + session.window < arrival.time := by
  cases queue with
  | nil => exact fun _ h => by cases h
  | cons arrival queue =>
    rw [heard?] at h
    split at h
    · next hlate => exact fun _ ha => Option.some.inj ha ▸ hlate
    · cases h

theorem heard?_some {now : Nat} {wait : Wait} (h : heard? session queue now = some wait) :
    ∃ arrival rest, queue = arrival :: rest ∧ arrival.time ≤ now + session.window ∧
      wait = {
        session := (session.read arrival.datagram).1, queue := rest, now := max now arrival.time
        result := (session.read arrival.datagram).2, record := [.listened now (max now arrival.time)] } := by
  cases queue with
  | nil => cases h
  | cons arrival queue =>
    rw [heard?] at h
    split at h
    · cases h
    · next hearly => exact ⟨arrival, queue, rfl, Nat.le_of_not_lt hearly, (Option.some.inj h).symm⟩

theorem conducted_heard {wait : Wait} {limit now : Nat} (hl : 0 < limit) (h : heard? session queue now = some wait) :
    Conducted session queue repeated limit now
      { wait with record := entries now (repeated.toList.map session.address) ++ wait.record } := by
  obtain ⟨arrival, rest, rfl, hearly, rfl⟩ := heard?_some h
  have hmin : min (now + session.window) (max now arrival.time) = max now arrival.time :=
    Nat.min_eq_right (Nat.max_le.mpr ⟨Nat.le_add_right _ _, hearly⟩)
  have hlimit : session.window ≤ limit * session.window := Nat.le_mul_of_pos_left _ hl
  have hlow : now + (1 - 1) * session.window ≤ max now arrival.time := by omega
  have hhigh : max now arrival.time ≤ now + 1 * session.window := by omega
  refine ⟨⟨1, Nat.one_pos, hl, ?_, hlow, hhigh⟩, fun other others hq _ => ?_, fun hlate => ?_⟩
  · rw [Exchange.rounds, Exchange.rounds, hmin]
  · cases hq
    exact ⟨rfl, rfl, session.read_hears arrival.datagram⟩
  · have := hlate arrival rfl
    omega

theorem Conducted.after_silence {wait : Wait} {limit now : Nat} (hq : heard? session queue now = none)
    (h : Conducted session queue repeated limit (now + session.window) wait) :
    Conducted session queue repeated (limit + 1) now
      { wait with
        record := entries now (repeated.toList.map session.address) ++
          .listened now (now + session.window) :: wait.record } := by
  -- one more window, so all times move on by the length of one
  obtain ⟨⟨n, hn, hlimit, hrecord, hlow, hhigh⟩, hheard, hsilent⟩ := h
  have hlate := heard?_none hq
  have hmin : min (now + session.window) wait.now = now + session.window := Nat.min_eq_left (by omega)
  have hwindows : (n - 1) * session.window + session.window = n * session.window := by
    obtain ⟨m, rfl⟩ : ∃ m, n = m + 1 := ⟨n - 1, by omega⟩
    rw [Nat.add_sub_cancel, Nat.succ_mul]
  have hlow' : now + (n + 1 - 1) * session.window ≤ wait.now := by
    rw [Nat.add_sub_cancel]
    omega
  have hhigh' : wait.now ≤ now + (n + 1) * session.window := by
    rw [Nat.succ_mul]
    omega
  refine ⟨⟨n + 1, Nat.succ_pos n, Nat.succ_le_succ hlimit, ?_, hlow', hhigh'⟩,
    fun arrival rest hqueue htime => ?_, fun hall => ?_⟩
  · rw [Exchange.rounds, hmin, hrecord]
  · rw [Nat.succ_mul] at htime
    obtain ⟨hrest, hnow, hhears⟩ := hheard arrival rest hqueue (by omega)
    have hafter : now + session.window ≤ arrival.time := Nat.le_of_lt (hlate arrival (by rw [hqueue]; rfl))
    have htime : max (now + session.window) arrival.time = max now arrival.time := by
      rw [Nat.max_eq_right hafter, Nat.max_eq_right (Nat.le_trans (Nat.le_add_right _ _) hafter)]
    exact ⟨hrest, hnow.trans htime, hhears⟩
  · obtain ⟨hsession, hrest, hnow, hresult⟩ := hsilent fun arrival ha => by
      have := hall arrival ha
      rw [Nat.succ_mul] at this
      omega
    refine ⟨hsession, hrest, ?_, hresult⟩
    rw [Nat.succ_mul]
    change wait.now = _
    omega

theorem conducted_none {now : Nat} (hq : heard? session queue now = none) :
    Conducted session queue repeated 1 now
      { session, queue, now := now + session.window, result := .error .timeout
        record := entries now (repeated.toList.map session.address) ++ [.listened now (now + session.window)] } := by
  have hlate := heard?_none hq
  have hlow : now + (1 - 1) * session.window ≤ now + session.window := by omega
  have hhigh : now + session.window = now + 1 * session.window := by rw [Nat.one_mul]
  refine ⟨⟨1, Nat.one_pos, Nat.le_refl 1, ?_, hlow, Nat.le_of_eq hhigh⟩, fun arrival rest hqueue htime => ?_,
    fun _ => ⟨rfl, rfl, hhigh, rfl⟩⟩
  · rw [Exchange.rounds, Exchange.rounds, Nat.min_self]
  · have := hlate arrival (by rw [hqueue]; rfl)
    omega

theorem follow_conducted (hs : ∀ packet, repeated = some packet → Session.send link packet = .ok ()) (left now : Nat) :
    Conducted session queue repeated (left + 1) now
      { follow link session queue repeated left now with
        record := entries now (repeated.toList.map session.address) ++
          (follow link session queue repeated left now).record } := by
  induction left generalizing now with
  | zero =>
    rw [follow]
    cases hq : heard? session queue now with
    | some wait => exact conducted_heard Nat.one_pos hq
    | none => exact conducted_none hq
  | succ left ih =>
    rw [follow]
    cases hq : heard? session queue now with
    | some wait => exact conducted_heard (Nat.succ_pos _) hq
    | none =>
      simp only [Option.getD_none, openWindow_carried hs, List.cons_append]
      exact (ih (now + session.window)).after_silence hq

theorem conduct_conducted (hs : ∀ packet, repeated = some packet → Session.send link packet = .ok ())
    (limit now : Nat) :
    Conducted session queue repeated (limit + 1) now
      (conduct link session queue now (openWindow link session repeated (limit + 1))) := by
  rw [openWindow_carried hs]
  exact follow_conducted hs limit now

theorem Conducted.timeout_iff {wait : Wait} {limit now : Nat} (h : Conducted session queue repeated limit now wait) :
    wait.result = .error .timeout ↔ ∀ arrival ∈ queue.head?, now + limit * session.window < arrival.time := by
  refine ⟨fun hresult arrival ha => ?_, fun hall => (h.silent hall).2.2.2⟩
  refine Nat.lt_of_not_le fun hearly => ?_
  obtain ⟨rest, rfl⟩ := List.head?_eq_some_iff.mp ha
  exact (h.heard arrival rest rfl hearly).2.2.ne_timeout hresult

end Exchange

end Tftp
