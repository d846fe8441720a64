/-
  The cipher of the remote input between its two implementations: an endpoint in
  the Viewer's browser and the Host, joined by channels that keep the order, with
  any number of packets on their way.
-/
import Piik.Input.Cipher

namespace Piik.Input.Cipher

open Piik.Client.InputRoute (Endpoint InputIdentity Sealing Opening textOf isHex32)

/-! ## Numbers -/

section Numbers

variable {α : Type} {n k : ℕ} {texts : List α} {a b : List (ℕ × α)} {x : ℕ × α}

/-- The texts with the numbers that follow `n`. -/
def numbered (n : ℕ) (texts : List α) : List (ℕ × α) := (texts.zipIdx (n + 1)).map Prod.swap

@[simp] theorem numbered_nil : numbered n ([] : List α) = [] := rfl

theorem numbered_snoc {text : α} :
    numbered n (texts ++ [text]) = numbered n texts ++ [(n + texts.length + 1, text)] := by
  simp [numbered, List.zipIdx_append, add_right_comm]

theorem length_numbered : (numbered n texts).length = texts.length := by
  simp [numbered]

theorem getElem?_numbered {i : ℕ} :
    (numbered n texts)[i]? = texts[i]?.map fun text => (n + i + 1, text) := by
  simp [numbered, Function.comp_def, add_right_comm]

theorem numbered_take : numbered n (texts.take k) = (numbered n texts).take k := by
  apply List.ext_getElem?
  intro i
  simp only [getElem?_numbered, List.getElem?_take]
  split <;> rfl

/-- The number of an entry tells its place. -/
theorem numbered_split (h : a ++ x :: b = numbered n texts) :
    x.1 = n + a.length + 1 ∧ a.length < texts.length ∧ x.2 ∈ texts := by
  have hget : (numbered n texts)[a.length]? = some x := by
    rw [← h]
    simp
  rw [getElem?_numbered] at hget
  obtain ⟨text, htext, rfl⟩ := Option.map_eq_some_iff.1 hget
  exact ⟨rfl, (List.getElem?_eq_some_iff.1 htext).1, List.mem_of_getElem? htext⟩

end Numbers

/-! ## The link -/

/-- The host's cipher, one endpoint, and the packets in flight both ways. -/
structure Link where
  host : InputCipher
  endpoint : Endpoint
  /-- The counter of the identity. -/
  sent : ℕ
  /-- The packets on their way to the Host, and to the endpoint. -/
  up : List String := []
  down : List String := []
  /-- What the Host has opened. -/
  accepted : List (ℕ × List UInt8) := []
  /-- The texts that the endpoint was given, and that the Host has sealed. -/
  said : List (List UInt8) := []
  replied : List (List UInt8) := []

namespace Link

/-- What happens on a link. -/
inductive Event
  | send (data : String)
  | beginSeal (nonce : List UInt8)
  | endSeal
  /-- The Host opens the next packet. -/
  | deliver
  | reply (plain nonce : List UInt8)
  /-- The endpoint is handed the next packet. -/
  | receive
  | beginOpen
  | endOpen

/-- A text for the Host has at most `maxInputBytes`; a packet for the endpoint has at most
    `maxIncoming`, and is handed over when there is room for it; the numbers have 64 bits. -/
def step (A : Aead) (l : Link) : Event → Option Link
  | .send data =>
    if data.toUTF8.toList.length ≤ Manager.maxInputBytes then
      some { l with endpoint := l.endpoint.send data, said := l.said ++ [data.toUTF8.toList] }
    else none
  | .beginSeal nonce =>
    if nonce.length = 12 ∧ l.sent + 1 < 2 ^ 64 then
      (l.endpoint.beginSeal l.sent nonce).map fun out => { l with endpoint := out.1, sent := out.2 }
    else none
  | .endSeal =>
    (l.endpoint.endSeal A.subtle).map fun out =>
      { l with endpoint := out.1, up := l.up ++ out.2.toList.map fun t => textOf t.packet.data }
  | .deliver =>
    match l.up with
    | [] => none
    | data :: rest =>
      some (match l.host.openPacket A data l.endpoint.epoch with
        | none => { l with up := rest }
        | some (seq, plain) =>
          { l with up := rest, host := { l.host with received := seq }
                   accepted := l.accepted ++ [(seq, plain)] })
  | .reply plain nonce =>
    let out := l.host.sealPacket A plain l.endpoint.epoch nonce
    if nonce.length = 12 ∧ l.host.sent + 1 < 2 ^ 64 ∧ Room.utf16Length out.1 ≤ Endpoint.maxIncoming then
      some { l with host := out.2, down := l.down ++ [out.1], replied := l.replied ++ [plain] }
    else none
  | .receive =>
    match l.down with
    | [] => none
    | data :: rest =>
      if l.endpoint.incomingBytes + Room.utf16Length data ≤ Endpoint.maxIncoming then
        some { l with endpoint := (l.endpoint.receive data).1, down := rest }
      else none
  | .beginOpen => (l.endpoint.beginOpen A.subtle).map fun endpoint => { l with endpoint }
  | .endOpen => l.endpoint.endOpen.map fun endpoint => { l with endpoint }

/-- A new endpoint, of an identity that may have been used before. -/
def start (host : InputCipher) (identity : InputIdentity) (epoch : String) (sent : ℕ) : Link :=
  { host, endpoint := { identity, epoch, counter := 0, home := none }, sent }

end Link

/-! ## What opens -/

/-- The packet of a text. -/
def Text.packet (A : Aead) (secret : String) (direction : UInt8) (t : Text) : String :=
  PaddedBase64.encodeToString (BigEndian.put 8 t.sequence ++ t.nonce ++
    A.sealText secret t.nonce t.plain (t.aad direction))

/-- A text as the cipher's log has it. -/
def Text.entry (t : Text) : ℕ × List UInt8 := (t.sequence, t.plain)

variable {A : Aead} {c : InputCipher} {e : Endpoint} {t : Text}

/-- The three parts of a packet. -/
theorem parts {sequence : ℕ} {nonce text : List UInt8} (hnonce : nonce.length = 12) :
    let bytes := BigEndian.put 8 sequence ++ nonce ++ text
    bytes.take 8 = BigEndian.put 8 sequence ∧ (bytes.drop 8).take 12 = nonce ∧ bytes.drop 20 = text ∧
      bytes.length = 20 + text.length := by
  intro bytes
  have hseq : (BigEndian.put 8 sequence).length = 8 := BigEndian.length_put
  have hdrop : bytes.drop 8 = nonce ++ text := by
    show (BigEndian.put 8 sequence ++ nonce ++ text).drop 8 = _
    rw [List.append_assoc, List.drop_left' hseq]
  refine ⟨?_, ?_, ?_, ?_⟩
  · show (BigEndian.put 8 sequence ++ nonce ++ text).take 8 = _
    rw [List.append_assoc, List.take_left' hseq]
  · rw [hdrop, List.take_left' hnonce]
  · rw [show 20 = 8 + 12 from rfl, ← List.drop_drop, hdrop, List.drop_left' hnonce]
  · show (BigEndian.put 8 sequence ++ nonce ++ text).length = _
    simp only [List.length_append, hseq, hnonce]

/-- The Host opens the packet of a text that fits, under a number that is new. -/
theorem openPacket_packet (hnonce : t.nonce.length = 12) (hlt : t.sequence < 2 ^ 64)
    (hnew : c.received < t.sequence) (hfits : t.plain.length ≤ Manager.maxInputBytes) :
    c.openPacket A (t.packet A c.secret 0) t.epoch = some t.entry := by
  generalize htext : A.sealText c.secret t.nonce t.plain (t.aad 0) = text
  obtain ⟨hseq, hnonce', hdrop, hlength⟩ := @parts t.sequence t.nonce text hnonce
  have hlen : text.length = t.plain.length + Manager.sealOverhead := htext ▸ A.length_seal _ _ _ _
  have huint : BigEndian.uint (BigEndian.put 8 t.sequence) = t.sequence :=
    BigEndian.uint_put_of_lt (by simpa using hlt)
  have hopen : A.openText c.secret t.nonce text (inputAAD 0 (BigEndian.put 8 t.sequence) t.epoch) =
      some t.plain := by
    rw [← htext]
    exact A.open_seal _ _ _ _
  rw [InputCipher.openPacket, Text.packet, htext, PaddedBase64.decodeString_encode]
  dsimp only [Option.bind_eq_bind, Option.bind_some]
  rw [hlength, hseq, hnonce', hdrop, huint, hopen, if_neg, if_neg (not_le.2 hnew)]
  · rfl
  · rw [hlen, Bool.or_eq_true, decide_eq_true_eq, decide_eq_true_eq]
    omega

/-- The endpoint opens the packet of a text of its epoch, under a number that is new. -/
theorem toOpen_packet (hepoch : e.epoch.utf8ByteSize = 32) (ht : t.epoch = e.epoch)
    (hnonce : t.nonce.length = 12) (hlt : t.sequence < 2 ^ 64) (hnew : e.received < t.sequence) :
    e.toOpen A.subtle (t.packet A e.identity.secret 1) =
      some ⟨Room.utf16Length (t.packet A e.identity.secret 1), t.sequence, some t.plain⟩ := by
  generalize htext : A.sealText e.identity.secret t.nonce t.plain (t.aad 1) = text
  obtain ⟨hseq, hnonce', hdrop, hlength⟩ := @parts t.sequence t.nonce text hnonce
  have hlen : text.length = t.plain.length + Manager.sealOverhead := htext ▸ A.length_seal _ _ _ _
  have hoverhead : Manager.sealOverhead = 16 := rfl
  have huint : BigEndian.uint (BigEndian.put 8 t.sequence) = t.sequence :=
    BigEndian.uint_put_of_lt (by simpa using hlt)
  have hopen : A.openText e.identity.secret t.nonce text
      (Endpoint.aad 1 (BigEndian.put 8 t.sequence) e.epoch) = some t.plain := by
    rw [← htext, System.aad_eq hepoch, ← ht]
    exact A.open_seal _ _ _ _
  rw [Endpoint.toOpen, Text.packet, htext, PaddedBase64.atob_encode]
  dsimp only [Option.bind_eq_bind, Option.bind_some]
  rw [hlength, hseq, huint, if_neg (by omega), if_neg (by omega), hnonce', hdrop, ← hopen]
  rfl

/-- What the endpoint transmits of a text it has taken up is the packet of the text. -/
theorem endSeal_packet {sealing : Sealing} (hepoch : e.epoch.utf8ByteSize = 32)
    (hopened : e.opened = true) (hsealing : e.sealing = some sealing) :
    e.endSeal A.subtle = some (
      { e with sealing := none, bufferedAmount := e.bufferedAmount - sealing.plain.length },
      some { packet := { id := some (.text e.identity.endpointId), epoch := some (.text e.epoch),
                         data := some (.text (Text.packet A e.identity.secret 0
                           ⟨sealing.sequence, e.epoch, sealing.nonce, sealing.plain⟩)) }
             sequence := some sealing.sequence }) := by
  rw [Endpoint.endSeal, hsealing, Option.map_some]
  simp only [Endpoint.sealed, Aead.subtle, Option.map_some, hopened, Bool.not_true, Bool.false_eq_true,
    if_false, System.aad_eq hepoch]
  rfl

namespace Link

variable {l l' : Link} {n : ℕ} {wire queue : List Text} {texts : List (List UInt8)}

/-! ## What is on its way -/

/-- Every text the endpoint was given is opened, on its way, being sealed or waiting, in this order. -/
structure Upward (A : Aead) (n : ℕ) (l : Link) (wire : List Text) (texts : List (List UInt8)) : Prop where
  up : l.up = wire.map (Text.packet A l.host.secret 0)
  sealed : ∀ t ∈ wire, t.epoch = l.endpoint.epoch ∧ t.nonce.length = 12
  sealing : ∀ s ∈ l.endpoint.sealing, s.nonce.length = 12
  spoken : l.accepted ++ wire.map Text.entry ++
    (l.endpoint.sealing.toList.map fun s => (s.sequence, s.plain)) = numbered n texts
  said : texts ++ l.endpoint.outbound = l.said
  sent : l.sent = n + texts.length
  lasts : l.sent < 2 ^ 64
  received : l.host.received ≤ n + l.accepted.length
  fits : ∀ plain ∈ l.said, plain.length ≤ Manager.maxInputBytes

/-- Every text the Host has sealed is dispatched, being opened, queued or on its way, in this order. -/
structure Downward (A : Aead) (n : ℕ) (l : Link) (wire queue : List Text) : Prop where
  down : l.down = wire.map (Text.packet A l.host.secret 1)
  inbound : l.endpoint.inbound = queue.map (Text.packet A l.host.secret 1)
  sealed : ∀ t ∈ queue ++ wire, t.epoch = l.endpoint.epoch ∧ t.nonce.length = 12
  opening : ∀ o ∈ l.endpoint.opening, o.plain.isSome
  heard : l.endpoint.delivered ++
    (l.endpoint.opening.toList.filterMap fun o => o.plain.map fun plain => (o.sequence, plain)) ++
    (queue ++ wire).map Text.entry = numbered n l.replied
  sent : l.host.sent = n + l.replied.length
  lasts : l.host.sent < 2 ^ 64
  received : l.endpoint.received ≤ n + l.endpoint.delivered.length
  fits : ∀ data ∈ l.down, Room.utf16Length data ≤ Endpoint.maxIncoming

/-- The two ends share the secret and the endpoint is open; `up` and `down` are the numbers that
    were used before. -/
structure Joined (A : Aead) (up down : ℕ) (l : Link) : Prop where
  opened : l.endpoint.opened = true
  secret : l.endpoint.identity.secret = l.host.secret
  epoch : l.endpoint.epoch.utf8ByteSize = 32
  accounts : l.endpoint.Accounts
  upward : ∃ wire texts, Upward A up l wire texts
  downward : ∃ wire queue, Downward A down l wire queue

variable {up down : ℕ}

theorem joined_start {identity : InputIdentity} {epoch : String} {sent : ℕ}
    (hsecret : identity.secret = c.secret) (hepoch : isHex32 epoch = true) (hreceived : c.received ≤ sent)
    (hsent : sent < 2 ^ 64) (hlasts : c.sent < 2 ^ 64) :
    Joined A sent c.sent (start c identity epoch sent) where
  opened := rfl
  secret := hsecret
  epoch := System.utf8ByteSize_of_hex hepoch
  accounts := Endpoint.Accounts.fresh _ _ _ _
  upward := ⟨[], [], rfl, by simp, by simp [start], rfl, rfl, rfl, hsent, hreceived, by simp [start]⟩
  downward := ⟨[], [], rfl, rfl, by simp, by simp [start], rfl, rfl, hlasts, Nat.zero_le _, by simp [start]⟩

/-! ### To the Host -/

theorem joined_send {data : String} (h : Joined A up down l)
    (hfits : data.toUTF8.toList.length ≤ Manager.maxInputBytes) :
    Joined A up down { l with endpoint := l.endpoint.send data, said := l.said ++ [data.toUTF8.toList] } := by
  obtain ⟨wire, texts, hu⟩ := h.upward
  obtain ⟨wire', queue, hd⟩ := h.downward
  have hsend : l.endpoint.send data =
      { l.endpoint with bufferedAmount := l.endpoint.bufferedAmount + data.toUTF8.toList.length
                        outbound := l.endpoint.outbound ++ [data.toUTF8.toList] } := by
    simp [Endpoint.send, h.opened]
  have haccounts : (l.endpoint.send data).Accounts := h.accounts.send
  rw [hsend] at haccounts ⊢
  refine ⟨h.opened, h.secret, h.epoch, haccounts,
    ⟨wire, texts, hu.up, hu.sealed, hu.sealing, hu.spoken, ?_, hu.sent, hu.lasts, hu.received, ?_⟩,
    ⟨wire', queue, hd.down, hd.inbound, hd.sealed, hd.opening, hd.heard, hd.sent, hd.lasts, hd.received, hd.fits⟩⟩
  · rw [← List.append_assoc, hu.said]
  · intro plain hplain
    rcases List.mem_append.1 hplain with hplain | hplain
    · exact hu.fits plain hplain
    · exact List.mem_singleton.1 hplain ▸ hfits

theorem joined_beginSeal {nonce : List UInt8} {out : Endpoint × ℕ} (h : Joined A up down l)
    (hnonce : nonce.length = 12) (hlasts : l.sent + 1 < 2 ^ 64)
    (hs : l.endpoint.beginSeal l.sent nonce = some out) :
    Joined A up down { l with endpoint := out.1, sent := out.2 } := by
  obtain ⟨wire, texts, hu⟩ := h.upward
  obtain ⟨wire', queue, hd⟩ := h.downward
  have haccounts : out.1.Accounts := h.accounts.beginSeal hs
  unfold Endpoint.beginSeal at hs
  split at hs
  · next plain rest hsealing houtbound =>
    rw [if_neg (by simp [h.opened])] at hs
    obtain rfl := Option.some.inj hs
    have hspoken := hu.spoken
    have hsaid := hu.said
    rw [hsealing, Option.toList_none, List.map_nil, List.append_nil] at hspoken
    rw [houtbound] at hsaid
    refine ⟨h.opened, h.secret, h.epoch, haccounts,
      ⟨wire, texts ++ [plain], hu.up, hu.sealed, ?_, ?_, ?_, ?_, hlasts, hu.received, hu.fits⟩,
      ⟨wire', queue, hd.down, hd.inbound, hd.sealed, hd.opening, hd.heard, hd.sent, hd.lasts, hd.received, hd.fits⟩⟩
    · rintro _ ⟨⟩
      exact hnonce
    · rw [numbered_snoc, ← hspoken, ← hu.sent]
      rfl
    · rw [← hsaid, List.append_assoc]
      rfl
    · simp [hu.sent, add_assoc]
  · cases hs

theorem joined_endSeal {out : Endpoint × Option Client.InputRoute.Transmission} (h : Joined A up down l)
    (hs : l.endpoint.endSeal A.subtle = some out) :
    Joined A up down
      { l with endpoint := out.1, up := l.up ++ out.2.toList.map fun t => textOf t.packet.data } := by
  obtain ⟨wire, texts, hu⟩ := h.upward
  obtain ⟨wire', queue, hd⟩ := h.downward
  have haccounts : out.1.Accounts := h.accounts.endSeal hs
  obtain ⟨sealing, hsealing, -⟩ := Option.map_eq_some_iff.1 hs
  rw [endSeal_packet h.epoch h.opened hsealing] at hs
  obtain rfl := Option.some.inj hs
  let t : Text := ⟨sealing.sequence, l.endpoint.epoch, sealing.nonce, sealing.plain⟩
  have hspoken := hu.spoken
  rw [hsealing] at hspoken
  refine ⟨h.opened, h.secret, h.epoch, haccounts,
    ⟨wire ++ [t], texts, ?_, ?_, nofun, ?_, hu.said, hu.sent, hu.lasts, hu.received, hu.fits⟩,
    ⟨wire', queue, hd.down, hd.inbound, hd.sealed, hd.opening, hd.heard, hd.sent, hd.lasts, hd.received, hd.fits⟩⟩
  · rw [List.map_append, ← hu.up, ← h.secret]
    rfl
  · intro t' ht'
    rcases List.mem_append.1 ht' with ht' | ht'
    · exact hu.sealed t' ht'
    · rw [List.mem_singleton.1 ht']
      exact ⟨rfl, hu.sealing sealing hsealing⟩
  · rw [← hspoken]
    simp [t, Text.entry]

theorem joined_deliver {data : String} {rest : List String} (h : Joined A up down l)
    (hup : l.up = data :: rest) : ∃ entry, l.host.openPacket A data l.endpoint.epoch = some entry ∧
      Joined A up down { l with up := rest, host := { l.host with received := entry.1 }
                                accepted := l.accepted ++ [entry] } := by
  obtain ⟨wire, texts, hu⟩ := h.upward
  obtain ⟨wire', queue, hd⟩ := h.downward
  obtain ⟨t, wire, rfl, rfl, rfl⟩ := List.map_eq_cons_iff.1 (hu.up.symm.trans hup)
  obtain ⟨hepoch, hnonce⟩ := hu.sealed t List.mem_cons_self
  have hspoken := hu.spoken
  rw [List.map_cons, List.append_assoc, List.cons_append] at hspoken
  obtain ⟨hsequence, hlength, hmem⟩ := numbered_split hspoken
  simp only [Text.entry] at hsequence hmem
  have hreceived := hu.received
  have hsent := hu.sent
  have hlasts := hu.lasts
  refine ⟨t.entry, ?_, h.opened, h.secret, h.epoch, h.accounts,
    ⟨wire, texts, rfl, fun t' ht' => hu.sealed t' (List.mem_cons_of_mem _ ht'), hu.sealing, ?_, hu.said, hu.sent,
      hu.lasts, ?_, hu.fits⟩,
    ⟨wire', queue, hd.down, hd.inbound, hd.sealed, hd.opening, hd.heard, hd.sent, hd.lasts, hd.received, hd.fits⟩⟩
  · rw [← hepoch]
    exact openPacket_packet hnonce (by omega) (by omega)
      (hu.fits _ (hu.said ▸ List.mem_append_left _ hmem))
  · rw [← hspoken]
    simp
  · simp only [Text.entry, List.length_append, List.length_singleton]
    omega

/-! ### To the endpoint -/

theorem joined_reply {plain nonce : List UInt8} (h : Joined A up down l) (hnonce : nonce.length = 12)
    (hlasts : l.host.sent + 1 < 2 ^ 64)
    (hfits : Room.utf16Length (l.host.sealPacket A plain l.endpoint.epoch nonce).1 ≤ Endpoint.maxIncoming) :
    Joined A up down { l with host := (l.host.sealPacket A plain l.endpoint.epoch nonce).2
                              down := l.down ++ [(l.host.sealPacket A plain l.endpoint.epoch nonce).1]
                              replied := l.replied ++ [plain] } := by
  obtain ⟨wire, texts, hu⟩ := h.upward
  obtain ⟨wire', queue, hd⟩ := h.downward
  let t : Text := ⟨l.host.sent + 1, l.endpoint.epoch, nonce, plain⟩
  have hseal : l.host.sealPacket A plain l.endpoint.epoch nonce =
      (t.packet A l.host.secret 1, { l.host with sent := l.host.sent + 1 }) := by
    simp only [InputCipher.sealPacket, Nat.mod_eq_of_lt hlasts]
    rfl
  rw [hseal] at hfits ⊢
  refine ⟨h.opened, h.secret, h.epoch, h.accounts,
    ⟨wire, texts, hu.up, hu.sealed, hu.sealing, hu.spoken, hu.said, hu.sent, hu.lasts, hu.received, hu.fits⟩,
    ⟨wire' ++ [t], queue, ?_, hd.inbound, ?_, hd.opening, ?_, ?_, hlasts, hd.received, ?_⟩⟩
  · rw [List.map_append, ← hd.down]
    rfl
  · intro t' ht'
    rw [← List.append_assoc] at ht'
    rcases List.mem_append.1 ht' with ht' | ht'
    · exact hd.sealed t' ht'
    · rw [List.mem_singleton.1 ht']
      exact ⟨rfl, hnonce⟩
  · rw [numbered_snoc, ← hd.heard, ← hd.sent]
    simp [t, Text.entry]
  · simp [hd.sent, add_assoc]
  · intro data hdata
    rcases List.mem_append.1 hdata with hdata | hdata
    · exact hd.fits data hdata
    · exact List.mem_singleton.1 hdata ▸ hfits

theorem joined_receive {data : String} {rest : List String} (h : Joined A up down l)
    (hdown : l.down = data :: rest)
    (hroom : l.endpoint.incomingBytes + Room.utf16Length data ≤ Endpoint.maxIncoming) :
    Joined A up down { l with endpoint := (l.endpoint.receive data).1, down := rest } := by
  obtain ⟨wire, texts, hu⟩ := h.upward
  obtain ⟨wire', queue, hd⟩ := h.downward
  obtain ⟨t, wire', rfl, rfl, rfl⟩ := List.map_eq_cons_iff.1 (hd.down.symm.trans hdown)
  have hreceive : (l.endpoint.receive (t.packet A l.host.secret 1)).1 =
      { l.endpoint with
        incomingBytes := l.endpoint.incomingBytes + Room.utf16Length (t.packet A l.host.secret 1)
        inbound := l.endpoint.inbound ++ [t.packet A l.host.secret 1] } := by
    rw [Endpoint.receive, if_neg (not_lt.2 hroom)]
  have haccounts : (l.endpoint.receive (t.packet A l.host.secret 1)).1.Accounts :=
    h.accounts.receive
  rw [hreceive] at haccounts ⊢
  refine ⟨h.opened, h.secret, h.epoch, haccounts,
    ⟨wire, texts, hu.up, hu.sealed, hu.sealing, hu.spoken, hu.said, hu.sent, hu.lasts, hu.received, hu.fits⟩,
    ⟨wire', queue ++ [t], rfl, ?_, ?_, hd.opening, ?_, hd.sent, hd.lasts, hd.received, ?_⟩⟩
  · rw [List.map_append, ← hd.inbound]
    rfl
  · simpa using hd.sealed
  · simpa using hd.heard
  · intro data hdata
    exact hd.fits data (hdown ▸ List.mem_cons_of_mem _ hdata)

theorem joined_beginOpen {endpoint : Endpoint} (h : Joined A up down l)
    (hs : l.endpoint.beginOpen A.subtle = some endpoint) :
    Joined A up down { l with endpoint } := by
  obtain ⟨wire, texts, hu⟩ := h.upward
  obtain ⟨wire', queue, hd⟩ := h.downward
  have haccounts := h.accounts.beginOpen hs
  unfold Endpoint.beginOpen at hs
  split at hs
  · next data rest hopening hinbound =>
    obtain ⟨t, queue, rfl, rfl, rfl⟩ := List.map_eq_cons_iff.1 (hd.inbound.symm.trans hinbound)
    obtain ⟨hepoch, hnonce⟩ := hd.sealed t List.mem_cons_self
    have hheard := hd.heard
    rw [hopening, Option.toList_none, List.filterMap_nil, List.append_nil, List.cons_append,
      List.map_cons] at hheard
    obtain ⟨hsequence, hlength, -⟩ := numbered_split hheard
    simp only [Text.entry] at hsequence
    have hreceived := hd.received
    have hsent := hd.sent
    have hlasts := hd.lasts
    rw [if_pos h.opened, ← h.secret, toOpen_packet h.epoch hepoch hnonce (by omega) (by omega)] at hs
    obtain rfl := Option.some.inj hs
    refine ⟨h.opened, h.secret, h.epoch, haccounts,
      ⟨wire, texts, hu.up, hu.sealed, hu.sealing, hu.spoken, hu.said, hu.sent, hu.lasts, hu.received, hu.fits⟩,
      ⟨wire', queue, hd.down, by rw [← h.secret], fun t' ht' => hd.sealed t' (List.mem_cons_of_mem _ ht'),
        ?_, ?_, hd.sent, hd.lasts, hd.received, hd.fits⟩⟩
    · intro o ho
      rw [← Option.some.inj ho]
      rfl
    · rw [← hheard]
      simp [Text.entry]
  · cases hs

theorem joined_endOpen {endpoint : Endpoint} (h : Joined A up down l) (hs : l.endpoint.endOpen = some endpoint) :
    Joined A up down { l with endpoint } := by
  obtain ⟨wire, texts, hu⟩ := h.upward
  obtain ⟨wire', queue, hd⟩ := h.downward
  have haccounts := h.accounts.endOpen hs
  obtain ⟨opening, hopening, hs⟩ := Option.map_eq_some_iff.1 hs
  obtain ⟨plain, hplain⟩ := Option.isSome_iff_exists.1 (hd.opening opening hopening)
  have hheard := hd.heard
  rw [hopening] at hheard
  simp only [Option.toList_some, List.filterMap_cons, hplain, Option.map_some, List.filterMap_nil,
    List.append_assoc, List.singleton_append] at hheard
  obtain ⟨hsequence, -, -⟩ := numbered_split hheard
  dsimp only at hs
  rw [hplain] at hs
  dsimp only at hs
  rw [if_neg (by simp [h.opened])] at hs
  subst hs
  refine ⟨h.opened, h.secret, h.epoch, haccounts,
    ⟨wire, texts, hu.up, hu.sealed, hu.sealing, hu.spoken, hu.said, hu.sent, hu.lasts, hu.received, hu.fits⟩,
    ⟨wire', queue, hd.down, hd.inbound, hd.sealed, nofun, ?_, hd.sent, hd.lasts, ?_, hd.fits⟩⟩
  · rw [← hheard]
    simp
  · simp only [List.length_append, List.length_singleton]
    omega

theorem joined_step {event : Event} (h : Joined A up down l) (hs : l.step A event = some l') :
    Joined A up down l' := by
  cases event with
  | send data =>
    obtain ⟨hfits, hs⟩ := Option.ite_none_right_eq_some.1 hs
    exact Option.some.inj hs ▸ joined_send h hfits
  | beginSeal nonce =>
    obtain ⟨⟨hnonce, hlasts⟩, hs⟩ := Option.ite_none_right_eq_some.1 hs
    obtain ⟨out, hout, rfl⟩ := Option.map_eq_some_iff.1 hs
    exact joined_beginSeal h hnonce hlasts hout
  | endSeal =>
    obtain ⟨out, hout, rfl⟩ := Option.map_eq_some_iff.1 hs
    exact joined_endSeal h hout
  | deliver =>
    simp only [step] at hs
    split at hs
    · cases hs
    · next data rest hup =>
      obtain ⟨entry, hopen, hjoined⟩ := joined_deliver h hup
      rw [hopen] at hs
      exact Option.some.inj hs ▸ hjoined
  | reply plain nonce =>
    obtain ⟨⟨hnonce, hlasts, hfits⟩, hs⟩ := Option.ite_none_right_eq_some.1 hs
    exact Option.some.inj hs ▸ joined_reply h hnonce hlasts hfits
  | receive =>
    simp only [step] at hs
    split at hs
    · cases hs
    · next data rest hdown =>
      obtain ⟨hroom, hs⟩ := Option.ite_none_right_eq_some.1 hs
      exact Option.some.inj hs ▸ joined_receive h hdown hroom
  | beginOpen =>
    obtain ⟨endpoint, hopen, rfl⟩ := Option.map_eq_some_iff.1 hs
    exact joined_beginOpen h hopen
  | endOpen =>
    obtain ⟨endpoint, hopen, rfl⟩ := Option.map_eq_some_iff.1 hs
    exact joined_endOpen h hopen

/-! ## Until nothing is on its way -/

/-- The texts and packets that are on their way, each with the steps it still has to take. -/
def owed (l : Link) : ℕ :=
  3 * l.endpoint.outbound.length + 2 * l.endpoint.sealing.toList.length + l.up.length +
    3 * l.down.length + 2 * l.endpoint.inbound.length + l.endpoint.opening.toList.length

theorem owed_endOpen {endpoint : Endpoint} (hs : l.endpoint.endOpen = some endpoint) :
    { l with endpoint }.owed < l.owed := by
  obtain ⟨opening, hopening, hs⟩ := Option.map_eq_some_iff.1 hs
  dsimp only at hs
  split at hs
  · subst hs
    simp [owed, hopening]
  · split at hs <;> subst hs <;> simp [owed, hopening]

theorem owed_beginOpen {S : Client.InputRoute.Subtle} {endpoint : Endpoint}
    (hs : l.endpoint.beginOpen S = some endpoint) : { l with endpoint }.owed < l.owed := by
  unfold Endpoint.beginOpen at hs
  split at hs
  · next data rest hopening hinbound =>
    split at hs <;> obtain rfl := Option.some.inj hs <;> simp [owed, hopening, hinbound]
    omega
  · cases hs

/-- While something is on its way, something can take a step. -/
theorem exists_step (h : Joined A up down l) (hlasts : up + l.said.length < 2 ^ 64) (howed : l.owed ≠ 0) :
    ∃ event l', l.step A event = some l' ∧ l'.owed < l.owed ∧ l'.said = l.said ∧ l'.replied = l.replied := by
  obtain ⟨wire, texts, hu⟩ := h.upward
  obtain ⟨wire', queue, hd⟩ := h.downward
  cases hsealing : l.endpoint.sealing with
  | some sealing =>
    refine ⟨.endSeal, _, congrArg (Option.map _) (endSeal_packet h.epoch h.opened hsealing), ?_, rfl, rfl⟩
    simp only [owed, hsealing, Option.toList_some, Option.toList_none, List.length_append,
      List.length_map, List.length_cons, List.length_nil]
    omega
  | none =>
  cases houtbound : l.endpoint.outbound with
  | cons plain rest =>
    have hlast : l.sent + 1 < 2 ^ 64 := by
      have hsent := hu.sent
      have hsaid := congrArg List.length hu.said
      simp only [houtbound, List.length_append, List.length_cons] at hsaid
      omega
    have hbegin : l.endpoint.beginSeal l.sent (List.replicate 12 0) = some
        ({ l.endpoint with outbound := rest, sealing := some ⟨plain, l.sent + 1, List.replicate 12 0⟩ },
          l.sent + 1) := by
      simp only [Endpoint.beginSeal, hsealing, houtbound]
      rw [if_neg (by simp [h.opened])]
    refine ⟨.beginSeal (List.replicate 12 0), _,
      (if_pos ⟨by simp, hlast⟩).trans (congrArg (Option.map _) hbegin), ?_, rfl, rfl⟩
    simp only [owed, hsealing, houtbound, Option.toList_some, Option.toList_none, List.length_cons,
      List.length_nil]
    omega
  | nil =>
  cases hup : l.up with
  | cons data rest =>
    obtain ⟨entry, hopen, -⟩ := joined_deliver h hup
    have hstep : l.step A .deliver = some { l with
        up := rest, host := { l.host with received := entry.1 }, accepted := l.accepted ++ [entry] } := by
      simp only [step, hup, hopen]
    refine ⟨.deliver, _, hstep, ?_, rfl, rfl⟩
    simp [owed, hup]
  | nil =>
  cases hopening : l.endpoint.opening with
  | some opening =>
    cases hend : l.endpoint.endOpen with
    | none =>
      rw [Endpoint.endOpen, hopening] at hend
      cases hend
    | some endpoint =>
      exact ⟨.endOpen, _, congrArg (Option.map _) hend, owed_endOpen hend, rfl, rfl⟩
  | none =>
  cases hinbound : l.endpoint.inbound with
  | cons data rest =>
    cases hbegin : l.endpoint.beginOpen A.subtle with
    | none =>
      simp only [Endpoint.beginOpen, hopening, hinbound] at hbegin
      split at hbegin <;> cases hbegin
    | some endpoint =>
      exact ⟨.beginOpen, _, congrArg (Option.map _) hbegin, owed_beginOpen hbegin, rfl, rfl⟩
  | nil =>
  cases hdown : l.down with
  | cons data rest =>
    have hroom : l.endpoint.incomingBytes + Room.utf16Length data ≤ Endpoint.maxIncoming := by
      have hincoming := h.accounts.incoming
      have hfits := hd.fits data (hdown ▸ List.mem_cons_self)
      simp only [hinbound, hopening, List.map_nil, List.sum_nil, Option.elim_none] at hincoming
      omega
    have hstep : l.step A .receive = some { l with endpoint := (l.endpoint.receive data).1, down := rest } := by
      simp only [step, hdown, if_pos hroom]
    refine ⟨.receive, _, hstep, ?_, rfl, rfl⟩
    simp only [owed, Endpoint.receive, if_neg (not_lt.2 hroom), hdown, hinbound, List.length_append,
      List.length_cons, List.length_nil]
    omega
  | nil => simp [owed, hsealing, houtbound, hup, hopening, hinbound, hdown] at howed

theorem reaches_joined {init : Link} {es : List Event} (h : Steps.Reaches (step A) init es l)
    (hinit : Joined A up down init) : Joined A up down l :=
  h.invariant hinit joined_step

/-- All that is on its way arrives. -/
theorem exists_settled (k : ℕ) (hk : l.owed = k) (h : Joined A up down l)
    (hlasts : up + l.said.length < 2 ^ 64) :
    ∃ es l', Steps.Reaches (step A) l es l' ∧ l'.owed = 0 ∧ l'.said = l.said ∧ l'.replied = l.replied := by
  induction k using Nat.strong_induction_on generalizing l with
  | _ k ih =>
    by_cases howed : l.owed = 0
    · exact ⟨[], l, .start, howed, rfl, rfl⟩
    · obtain ⟨event, l₁, hstep, hless, hsaid, hreplied⟩ := exists_step h hlasts howed
      obtain ⟨es, l', hreach, hsettled, hsaid', hreplied'⟩ :=
        ih l₁.owed (hk ▸ hless) rfl (joined_step h hstep) (hsaid ▸ hlasts)
      exact ⟨[event] ++ es, l', (Steps.Reaches.single hstep).trans hreach, hsettled, hsaid'.trans hsaid,
        hreplied'.trans hreplied⟩

theorem Joined.settled (h : Joined A up down l) (howed : l.owed = 0) :
    l.accepted = numbered up l.said ∧ l.endpoint.delivered = numbered down l.replied := by
  obtain ⟨wire, texts, hu⟩ := h.upward
  obtain ⟨wire', queue, hd⟩ := h.downward
  simp only [owed, hu.up, hd.down, hd.inbound, List.length_map, Nat.add_eq_zero_iff, Nat.mul_eq_zero,
    List.length_eq_zero_iff, OfNat.ofNat_ne_zero, false_or] at howed
  obtain ⟨⟨⟨⟨⟨houtbound, hsealing⟩, rfl⟩, rfl⟩, rfl⟩, hopening⟩ := howed
  have hspoken := hu.spoken
  have hheard := hd.heard
  rw [hsealing] at hspoken
  rw [hopening] at hheard
  rw [← hu.said, houtbound, List.append_nil, ← hspoken, ← hheard]
  simp

end Link

/-- **What is sealed on one side opens on the other.**  In every run of an endpoint and a Host of one
    secret, with any number of packets on their way, the Host has opened the first of the texts that the
    endpoint was given, and the endpoint has dispatched the first of those the Host has sealed, in their
    order, unchanged and under the numbers that follow; and the run can go on until that is all of them. -/
theorem cipher_round_trip {identity : InputIdentity} {epoch : String} {sent : ℕ} {l : Link}
    {es : List Link.Event} (hsecret : identity.secret = c.secret) (hepoch : isHex32 epoch = true)
    (hreceived : c.received ≤ sent) (hsent : sent < 2 ^ 64) (hlasts : c.sent < 2 ^ 64)
    (h : Steps.Reaches (Link.step A) (Link.start c identity epoch sent) es l) :
    l.accepted = numbered sent (l.said.take l.accepted.length) ∧
    l.endpoint.delivered = numbered c.sent (l.replied.take l.endpoint.delivered.length) ∧
    (sent + l.said.length < 2 ^ 64 → ∃ es' l', Steps.Reaches (Link.step A) l es' l' ∧
      l'.accepted = numbered sent l.said ∧ l'.endpoint.delivered = numbered c.sent l.replied) := by
  have hjoined := Link.reaches_joined h (Link.joined_start hsecret hepoch hreceived hsent hlasts)
  obtain ⟨wire, texts, hu⟩ := hjoined.upward
  obtain ⟨wire', queue, hd⟩ := hjoined.downward
  refine ⟨?_, ?_, fun hlast => ?_⟩
  · have htake := congrArg (List.take l.accepted.length) hu.spoken
    have hle : l.accepted.length ≤ texts.length := by
      have hlength := congrArg List.length hu.spoken
      rw [length_numbered, List.length_append, List.length_append] at hlength
      omega
    rw [List.append_assoc, List.take_left' rfl, ← numbered_take] at htake
    rw [← hu.said, List.take_append_of_le_length hle]
    exact htake
  · have htake := congrArg (List.take l.endpoint.delivered.length) hd.heard
    rw [List.append_assoc, List.take_left' rfl, ← numbered_take] at htake
    exact htake
  · obtain ⟨es', l', hreach, hsettled, hsaid, hreplied⟩ := Link.exists_settled _ rfl hjoined hlast
    obtain ⟨haccepted, hdelivered⟩ := (Link.reaches_joined hreach hjoined).settled hsettled
    exact ⟨es', l', hreach, hsaid ▸ haccepted, hreplied ▸ hdelivered⟩

/-- Two texts and two replies, the packets of each pair on their way at once. -/
theorem cipher_round_trip_two :
    let id := "00112233445566778899aabbccddeeff"
    let nonce : List UInt8 := List.replicate 12 7
    let es : List Link.Event := [.send "a", .send "b", .beginSeal nonce, .endSeal, .beginSeal nonce, .endSeal,
      .reply [97] nonce, .reply [98] nonce, .deliver, .receive, .receive, .beginOpen]
    ∃ l, Steps.Reaches (Link.step System.plainAead) (Link.start { secret := "key" } ⟨id, "key"⟩ id 0) es l ∧
      l.up.length = 1 ∧ l.endpoint.inbound.length = 1 ∧ l.accepted = [(1, [97])] ∧
      ∃ es' l', Steps.Reaches (Link.step System.plainAead) l es' l' ∧
        l'.accepted = [(1, [97]), (2, [98])] ∧ l'.endpoint.delivered = [(1, [97]), (2, [98])] := by
  intro id nonce es
  have hrun : (Steps.run (Link.step System.plainAead) (Link.start { secret := "key" } ⟨id, "key"⟩ id 0) es).map
      (fun l => decide (l.up.length = 1 ∧ l.endpoint.inbound.length = 1 ∧ l.accepted = [(1, [97])] ∧
        l.said = [[97], [98]] ∧ l.replied = [[97], [98]])) = some true := by
    decide +kernel
  obtain ⟨l, hl, hend⟩ := Option.map_eq_some_iff.1 hrun
  obtain ⟨hup, hinbound, haccepted, hsaid, hreplied⟩ := of_decide_eq_true hend
  have hreach := Steps.reaches_of_run hl
  have hall := (cipher_round_trip (A := System.plainAead) (c := { secret := "key" }) rfl (by decide +kernel)
    (Nat.zero_le _) (by decide) (by decide) hreach).2.2
  rw [hsaid, hreplied] at hall
  exact ⟨l, hreach, hup, hinbound, haccepted, hall (by decide)⟩

end Piik.Input.Cipher
