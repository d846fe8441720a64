/-
  The Viewer's end of the remote input (`EncryptedInput`,
  `client/remote-control/input-route.ts`): what it is given to send is sealed
  one text after another, and what it receives is opened one packet after
  another.  A text is sealed, and a packet opened, in two steps, since the
  browser's AES-GCM answers later; `close` can come between them.
-/
import Piik.Lib.BigEndian
import Piik.Lib.PaddedBase64
import Piik.Room.Database

namespace Piik.Client.InputRoute

/-- The name of an endpoint and its secret. -/
structure InputIdentity where
  endpointId : String
  secret : String
  deriving DecidableEq

/-- A value of JSON: what is neither a text, a boolean nor `null` is told apart only by whether it
    counts as true, as every array, object and number but 0 does. -/
inductive Json
  | null
  | bool (value : Bool)
  | text (value : String)
  | other (truthy : Bool)
  deriving DecidableEq

/-- The value counts as true in a condition. -/
def Json.truthy : Json → Bool
  | .null => false
  | .bool value => value
  | .text value => value ≠ ""
  | .other truthy => truthy

/-- A field that is there and counts as true. -/
def truthy (field : Option Json) : Bool := field.any Json.truthy

/-- The text of a field, where it is one. -/
def textOf : Option Json → String
  | some (.text value) => value
  | _ => ""

@[simp] theorem truthy_bool (value : Bool) : truthy (some (.bool value)) = value := rfl

@[simp] theorem textOf_text (value : String) : textOf (some (.text value)) = value := rfl

/-- The fields that are read; those of another peer may hold any value. -/
structure Packet where
  id : Option Json := none
  epoch : Option Json := none
  data : Option Json := none
  closed : Option Json := none
  ready : Option Json := none
  deriving DecidableEq

/-- AES-GCM of the browser under the key of a secret, which is imported for it: the nonce, the
    authenticated data and the text. `none` is a rejection. -/
structure Subtle where
  encrypt : String → List UInt8 → List UInt8 → List UInt8 → Option (List UInt8)
  decrypt : String → List UInt8 → List UInt8 → List UInt8 → Option (List UInt8)

/-- A text that is being sealed, and what stands in its header. -/
structure Sealing where
  plain : List UInt8
  sequence : ℕ
  nonce : List UInt8
  deriving DecidableEq

/-- A packet that is being opened, with what the browser will answer. -/
structure Opening where
  length : ℕ
  sequence : ℕ
  plain : Option (List UInt8)
  deriving DecidableEq

/-- `EncryptedInput` -/
structure Endpoint where
  identity : InputIdentity
  epoch : String
  /-- The number of its counter, which the endpoints of an identity share. -/
  counter : ℕ
  /-- The upstream that it was made for. -/
  home : Option ℕ
  opened : Bool := true
  bufferedAmount : ℕ := 0
  received : ℕ := 0
  incomingBytes : ℕ := 0
  outbound : List (List UInt8) := []
  sealing : Option Sealing := none
  inbound : List String := []
  opening : Option Opening := none
  /-- The texts that were dispatched, with their numbers. -/
  delivered : List (ℕ × List UInt8) := []
  deriving DecidableEq

/-- What is handed to `transmit`, and the number of a text that was sealed. -/
structure Transmission where
  packet : Packet
  sequence : Option ℕ := none
  deriving DecidableEq

namespace Endpoint

/-- The most that may wait to be opened, in UTF-16 units. -/
def maxIncoming : ℕ := 8192

/-- The authenticated data: 41 bytes, of which the epoch is to fill the last 32. -/
def aad (direction : UInt8) (sequence : List UInt8) (epoch : String) : List UInt8 :=
  direction :: sequence ++ epoch.toUTF8.toList ++ List.replicate (32 - epoch.utf8ByteSize) 0

/-- A text waits to be sealed. A closed endpoint drops it. -/
def send (e : Endpoint) (data : String) : Endpoint :=
  if !e.opened then e
  else { e with bufferedAmount := e.bufferedAmount + data.toUTF8.toList.length
                outbound := e.outbound ++ [data.toUTF8.toList] }

/-- The next text is taken up, with a nonce that was drawn; the counter is `sent`. -/
def beginSeal (e : Endpoint) (sent : ℕ) (nonce : List UInt8) : Option (Endpoint × ℕ) :=
  match e.sealing, e.outbound with
  | none, plain :: rest =>
    if !e.opened then
      some ({ e with outbound := rest, bufferedAmount := e.bufferedAmount - plain.length }, sent)
    else some ({ e with outbound := rest, sealing := some ⟨plain, sent + 1, nonce⟩ }, sent + 1)
  | _, _ => none

/-- The endpoint closes and says so to its peer, once. -/
def close (e : Endpoint) : Endpoint × Option Transmission :=
  if !e.opened then (e, none)
  else ({ e with opened := false },
    some { packet := { id := some (.text e.identity.endpointId), epoch := some (.text e.epoch)
                       closed := some (.bool true) } })

/-- The header and what is encrypted. -/
def sealed (S : Subtle) (e : Endpoint) (sealing : Sealing) : Option (List UInt8) :=
  (S.encrypt e.identity.secret sealing.nonce (aad 0 (BigEndian.put 8 sealing.sequence) e.epoch)
    sealing.plain).map fun encrypted => BigEndian.put 8 sealing.sequence ++ sealing.nonce ++ encrypted

/-- A text is sealed, and the packet leaves. -/
def endSeal (S : Subtle) (e : Endpoint) : Option (Endpoint × Option Transmission) :=
  e.sealing.map fun sealing =>
    let e := { e with sealing := none, bufferedAmount := e.bufferedAmount - sealing.plain.length }
    match e.sealed S sealing with
    | none => e.close
    | some bytes =>
      if !e.opened then (e, none)
      else (e, some {
        packet := { id := some (.text e.identity.endpointId), epoch := some (.text e.epoch),
                    data := some (.text (PaddedBase64.encodeToString bytes)) }
        sequence := some sealing.sequence })

/-- A packet waits to be opened. Too much of them closes the endpoint. -/
def receive (e : Endpoint) (data : String) : Endpoint × Option Transmission :=
  if e.incomingBytes + Room.utf16Length data > maxIncoming then e.close
  else ({ e with incomingBytes := e.incomingBytes + Room.utf16Length data, inbound := e.inbound ++ [data] }, none)

/-- What there is to decrypt in a packet that is not stale. -/
def toOpen (S : Subtle) (e : Endpoint) (data : String) : Option Opening := do
  let bytes ← PaddedBase64.atob data
  if bytes.length < 36 then none
  else
    let sequence := BigEndian.uint (bytes.take 8)
    if sequence ≤ e.received then none
    else some {
      length := Room.utf16Length data
      sequence
      plain := S.decrypt e.identity.secret ((bytes.drop 8).take 12) (aad 1 (bytes.take 8) e.epoch)
        (bytes.drop 20) }

/-- The browser starts to open the oldest packet. -/
def beginOpen (S : Subtle) (e : Endpoint) : Option Endpoint :=
  match e.opening, e.inbound with
  | none, data :: rest =>
    match if e.opened then e.toOpen S data else none with
    | none =>
      some { e with inbound := rest, incomingBytes := e.incomingBytes - Room.utf16Length data }
    | some opening => some { e with inbound := rest, opening := some opening }
  | _, _ => none

/-- The browser opened a packet, or could not. -/
def endOpen (e : Endpoint) : Option Endpoint :=
  e.opening.map fun opening =>
    let e := { e with opening := none, incomingBytes := e.incomingBytes - opening.length }
    match opening.plain with
    | none => e
    | some plain =>
      if !e.opened then e
      else { e with received := opening.sequence, delivered := e.delivered ++ [(opening.sequence, plain)] }

/-! ## What an endpoint keeps -/

/-- The amounts count what is in the queues; what is dispatched has rising numbers. -/
structure Accounts (e : Endpoint) : Prop where
  buffered : e.bufferedAmount = (e.outbound.map List.length).sum + (e.sealing.elim 0 fun s => s.plain.length)
  incoming : e.incomingBytes = (e.inbound.map Room.utf16Length).sum + (e.opening.elim 0 Opening.length)
  bounded : e.incomingBytes ≤ maxIncoming
  rising : (e.delivered.map Prod.fst).Pairwise (· < ·)
  below : ∀ d ∈ e.delivered, d.1 ≤ e.received
  ahead : ∀ o, e.opening = some o → e.received < o.sequence

/-- What no step of an endpoint changes. -/
structure Same (e e' : Endpoint) : Prop where
  identity : e'.identity = e.identity
  epoch : e'.epoch = e.epoch
  counter : e'.counter = e.counter
  home : e'.home = e.home

variable {S : Subtle} {e e' : Endpoint} {data : String} {out : Option Transmission}

theorem Accounts.fresh (identity : InputIdentity) (epoch : String) (counter : ℕ) (home : Option ℕ) :
    Accounts { identity, epoch, counter, home } where
  buffered := rfl
  incoming := rfl
  bounded := Nat.zero_le _
  rising := List.Pairwise.nil
  below := by simp
  ahead := by simp

theorem Accounts.send (h : Accounts e) : Accounts (e.send data) := by
  unfold Endpoint.send
  split
  · exact h
  · refine ⟨?_, h.incoming, h.bounded, h.rising, h.below, h.ahead⟩
    have := h.buffered
    simp only [List.map_append, List.sum_append, List.map_cons, List.map_nil, List.sum_cons, List.sum_nil]
    omega

theorem Accounts.close (h : Accounts e) : Accounts e.close.1 := by
  unfold Endpoint.close
  split
  · exact h
  · exact ⟨h.buffered, h.incoming, h.bounded, h.rising, h.below, h.ahead⟩

theorem Accounts.receive (h : Accounts e) : Accounts (e.receive data).1 := by
  unfold Endpoint.receive
  split
  · exact h.close
  · next hle =>
    refine ⟨h.buffered, ?_, not_lt.1 hle, h.rising, h.below, h.ahead⟩
    have := h.incoming
    simp only [List.map_append, List.sum_append, List.map_cons, List.map_nil, List.sum_cons, List.sum_nil]
    omega

theorem Accounts.beginSeal {sent sent' : ℕ} {nonce : List UInt8} (h : Accounts e)
    (hs : e.beginSeal sent nonce = some (e', sent')) : Accounts e' := by
  have hbuffered := h.buffered
  unfold Endpoint.beginSeal at hs
  split at hs
  · next plain rest hsealing houtbound =>
    rw [hsealing, houtbound, List.map_cons, List.sum_cons, Option.elim_none] at hbuffered
    split at hs
    · cases hs
      refine ⟨?_, h.incoming, h.bounded, h.rising, h.below, h.ahead⟩
      simp only [hsealing, Option.elim_none]
      omega
    · cases hs
      refine ⟨?_, h.incoming, h.bounded, h.rising, h.below, h.ahead⟩
      simp only [Option.elim_some]
      omega
  · cases hs

theorem Accounts.endSeal (h : Accounts e) (hs : e.endSeal S = some (e', out)) : Accounts e' := by
  obtain ⟨sealing, hsealing, hs⟩ := Option.map_eq_some_iff.1 hs
  have hbuffered := h.buffered
  rw [hsealing, Option.elim_some] at hbuffered
  have hdone : Accounts { e with sealing := none, bufferedAmount := e.bufferedAmount - sealing.plain.length } := by
    refine ⟨?_, h.incoming, h.bounded, h.rising, h.below, h.ahead⟩
    simp only [Option.elim_none]
    omega
  dsimp only at hs
  split at hs
  · obtain rfl : _ = e' := congrArg Prod.fst hs
    exact hdone.close
  · split at hs <;> cases hs <;> exact hdone

theorem toOpen_ahead {opening : Opening} (hs : e.toOpen S data = some opening) :
    e.received < opening.sequence ∧ opening.length = Room.utf16Length data := by
  unfold toOpen at hs
  obtain ⟨bytes, -, hs⟩ := Option.bind_eq_some_iff.1 hs
  split at hs
  · cases hs
  · dsimp only at hs
    split at hs
    · cases hs
    · next hle =>
      cases hs
      exact ⟨not_le.1 hle, rfl⟩

theorem Accounts.beginOpen (h : Accounts e) (hs : e.beginOpen S = some e') : Accounts e' := by
  have hincoming := h.incoming
  have hbounded := h.bounded
  unfold Endpoint.beginOpen at hs
  split at hs
  · next data rest hopening hinbound =>
    rw [hopening, hinbound, List.map_cons, List.sum_cons, Option.elim_none] at hincoming
    split at hs
    · cases hs
      refine ⟨h.buffered, ?_, ?_, h.rising, h.below, ?_⟩
      · simp only [hopening, Option.elim_none]
        omega
      · dsimp only
        omega
      · simp [hopening]
    · next opening heq =>
      cases hs
      obtain ⟨-, heq⟩ := Option.ite_none_right_eq_some.1 heq
      obtain ⟨hahead, hlength⟩ := toOpen_ahead heq
      refine ⟨h.buffered, ?_, hbounded, h.rising, h.below, ?_⟩
      · simp only [Option.elim_some]
        omega
      · intro o ho
        cases ho
        exact hahead
  · cases hs

theorem Accounts.endOpen (h : Accounts e) (hs : e.endOpen = some e') : Accounts e' := by
  obtain ⟨opening, hopening, hs⟩ := Option.map_eq_some_iff.1 hs
  have hincoming := h.incoming
  have hbounded := h.bounded
  have hahead := h.ahead opening hopening
  rw [hopening, Option.elim_some] at hincoming
  have hdone : Accounts { e with opening := none, incomingBytes := e.incomingBytes - opening.length } := by
    refine ⟨h.buffered, ?_, ?_, h.rising, h.below, by simp⟩
    · simp only [Option.elim_none]
      omega
    · dsimp only
      omega
  dsimp only at hs
  split at hs
  · cases hs
    exact hdone
  · split at hs
    · cases hs
      exact hdone
    · cases hs
      refine ⟨hdone.buffered, hdone.incoming, hdone.bounded, ?_, ?_, by simp⟩
      · rw [List.map_append, List.pairwise_append]
        refine ⟨h.rising, by simp, ?_⟩
        intro n hn m hm
        obtain ⟨d, hd, rfl⟩ := List.mem_map.1 hn
        rw [List.map_cons, List.map_nil, List.mem_singleton] at hm
        exact hm ▸ lt_of_le_of_lt (h.below d hd) hahead
      · intro d hd
        rcases List.mem_append.1 hd with hd | hd
        · exact (h.below d hd).trans hahead.le
        · rw [List.mem_singleton.1 hd]

/-! ## What an endpoint transmits -/

/-- The last packet of an endpoint. -/
def closing (e : Endpoint) : Transmission :=
  { packet := { id := some (.text e.identity.endpointId), epoch := some (.text e.epoch)
                closed := some (.bool true) } }

/-- The data starts with the number. -/
def Numbered (packet : Packet) (sequence : ℕ) : Prop :=
  ∃ body, packet.data =
    some (.text (PaddedBase64.encodeToString (BigEndian.put 8 sequence ++ body)))

/-- A step of an endpoint and what it transmits: nothing, or the text that was being sealed, or its
    last packet. -/
inductive Emits (e : Endpoint) : Endpoint → Option Transmission → Prop
  | quiet {e' : Endpoint} : Same e e' → e'.opened = e.opened → Emits e e' none
  | closes {e' : Endpoint} : Same e e' → e.opened = true → e'.opened = false → Emits e e' (some e.closing)
  | seals {e' : Endpoint} {sealing : Sealing} {t : Transmission} : Same e e' → e.opened = true →
      e'.opened = true → e.sealing = some sealing → e'.sealing = none →
      t.packet.id = some (.text e.identity.endpointId) → t.packet.epoch = some (.text e.epoch) →
      truthy t.packet.closed = false → t.sequence = some sealing.sequence → Numbered t.packet sealing.sequence →
      Emits e e' (some t)

theorem Emits.same (h : Emits e e' out) : Same e e' := by
  cases h with
  | quiet hsame => exact hsame
  | closes hsame => exact hsame
  | seals hsame => exact hsame

/-- No step opens an endpoint. -/
theorem Emits.opened (h : Emits e e' out) (ho : e'.opened = true) : e.opened = true := by
  cases h with
  | quiet _ heq => exact heq ▸ ho
  | closes _ hopen => exact hopen
  | seals _ hopen => exact hopen

/-- No text is taken up. -/
def Keeps (e e' : Endpoint) : Prop := e'.sealing = none ∨ e'.sealing = e.sealing

theorem emits_send : Emits e (e.send data) none ∧ Keeps e (e.send data) := by
  unfold Endpoint.send
  split
  · exact ⟨.quiet ⟨rfl, rfl, rfl, rfl⟩ rfl, .inr rfl⟩
  · exact ⟨.quiet ⟨rfl, rfl, rfl, rfl⟩ rfl, .inr rfl⟩

theorem emits_close : Emits e e.close.1 e.close.2 ∧ Keeps e e.close.1 := by
  unfold Endpoint.close
  split
  · exact ⟨.quiet ⟨rfl, rfl, rfl, rfl⟩ rfl, .inr rfl⟩
  · next hopened => exact ⟨.closes ⟨rfl, rfl, rfl, rfl⟩ (by simpa using hopened) rfl, .inr rfl⟩

theorem emits_receive : Emits e (e.receive data).1 (e.receive data).2 ∧ Keeps e (e.receive data).1 := by
  unfold Endpoint.receive
  split
  · exact emits_close
  · exact ⟨.quiet ⟨rfl, rfl, rfl, rfl⟩ rfl, .inr rfl⟩

theorem emits_endSeal (hs : e.endSeal S = some (e', out)) : Emits e e' out ∧ Keeps e e' := by
  obtain ⟨sealing, hsealing, hs⟩ := Option.map_eq_some_iff.1 hs
  dsimp only at hs
  split at hs
  · unfold Endpoint.close at hs
    split at hs
    · cases hs
      exact ⟨.quiet ⟨rfl, rfl, rfl, rfl⟩ rfl, .inl rfl⟩
    · next hopened =>
      cases hs
      exact ⟨.closes ⟨rfl, rfl, rfl, rfl⟩ (by simpa using hopened) rfl, .inl rfl⟩
  · next bytes hbytes =>
    split at hs
    · cases hs
      exact ⟨.quiet ⟨rfl, rfl, rfl, rfl⟩ rfl, .inl rfl⟩
    · next hopened =>
      cases hs
      have hopened : e.opened = true := by simpa using hopened
      obtain ⟨encrypted, -, rfl⟩ := Option.map_eq_some_iff.1 hbytes
      refine ⟨.seals ⟨rfl, rfl, rfl, rfl⟩ hopened hopened hsealing rfl rfl rfl rfl rfl ?_, .inl rfl⟩
      exact ⟨sealing.nonce ++ encrypted, by rw [List.append_assoc]⟩

theorem emits_beginOpen (hs : e.beginOpen S = some e') : Emits e e' none ∧ Keeps e e' := by
  unfold Endpoint.beginOpen at hs
  split at hs
  · split at hs <;> cases hs <;> exact ⟨.quiet ⟨rfl, rfl, rfl, rfl⟩ rfl, .inr rfl⟩
  · cases hs

theorem emits_endOpen (hs : e.endOpen = some e') : Emits e e' none ∧ Keeps e e' := by
  obtain ⟨opening, -, hs⟩ := Option.map_eq_some_iff.1 hs
  dsimp only at hs
  split at hs
  · cases hs
    exact ⟨.quiet ⟨rfl, rfl, rfl, rfl⟩ rfl, .inr rfl⟩
  · split at hs <;> cases hs <;> exact ⟨.quiet ⟨rfl, rfl, rfl, rfl⟩ rfl, .inr rfl⟩

/-- A text that is taken up gets the next number; an endpoint that is closed takes none. -/
theorem beginSeal_spec {sent sent' : ℕ} {nonce : List UInt8} (hs : e.beginSeal sent nonce = some (e', sent')) :
    Same e e' ∧ e'.opened = e.opened ∧ e.sealing = none ∧
      (e.opened = false ∧ e'.sealing = none ∧ sent' = sent ∨
        e.opened = true ∧ sent' = sent + 1 ∧ ∃ plain, e'.sealing = some ⟨plain, sent + 1, nonce⟩) := by
  unfold Endpoint.beginSeal at hs
  split at hs
  · next plain rest hsealing _ =>
    split at hs
    · next hopened =>
      cases hs
      exact ⟨⟨rfl, rfl, rfl, rfl⟩, rfl, hsealing, .inl ⟨by simpa using hopened, hsealing, rfl⟩⟩
    · next hopened =>
      cases hs
      exact ⟨⟨rfl, rfl, rfl, rfl⟩, rfl, hsealing, .inr ⟨by simpa using hopened, rfl, plain, rfl⟩⟩
  · cases hs

end Endpoint

end Piik.Client.InputRoute
