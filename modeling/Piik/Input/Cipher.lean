/-
  The cipher of the remote input, end to end: the Host's (`inputCipher`,
  `internal/app/remoteinput/cipher.go`), the endpoints of one identity in the
  Viewer's browser, and a network between them that delivers what it likes,
  when it likes.

  AES-GCM is a parameter.  That nothing opens under the key of an identity but
  what was sealed under it is a hypothesis on the run (`Unforged`).
-/
import Piik.Client.InputRoute
import Piik.Input.Grants
import Piik.Lib.Rising
import Piik.Lib.Steps
import Piik.Lib.Utf8

namespace Piik.Input.Cipher

open Piik.Client.InputRoute (Endpoint InputIdentity Subtle Transmission isHex32)

/-- AES-GCM with a nonce, an appended tag and authenticated data, under the key that a secret spells. -/
structure Aead where
  sealText : (secret : String) → (nonce plain aad : List UInt8) → List UInt8
  openText : (secret : String) → (nonce text aad : List UInt8) → Option (List UInt8)
  open_seal : ∀ secret nonce plain aad, openText secret nonce (sealText secret nonce plain aad) aad = some plain
  length_seal : ∀ secret nonce plain aad,
    (sealText secret nonce plain aad).length = plain.length + Manager.sealOverhead

/-- The same cipher in the browser. -/
def Aead.subtle (A : Aead) : Subtle where
  encrypt := fun secret nonce aad plain => some (A.sealText secret nonce plain aad)
  decrypt := fun secret nonce aad text => A.openText secret nonce text aad

/-- The host's half of a channel: the secret and the two counters. -/
structure InputCipher where
  secret : String
  sent : ℕ := 0
  received : ℕ := 0
  deriving DecidableEq

/-- The authenticated data of a packet. -/
def inputAAD (direction : UInt8) (sequence : List UInt8) (epoch : String) : List UInt8 :=
  direction :: sequence ++ epoch.toUTF8.toList

namespace InputCipher

/-- `open`: the number and the text; `received` is to become the number. -/
def openPacket (A : Aead) (c : InputCipher) (data epoch : String) : Option (ℕ × List UInt8) := do
  let bytes ← PaddedBase64.decodeString data
  if bytes.length < 20 + Manager.sealOverhead ||
      bytes.length > Manager.maxInputBytes + 20 + Manager.sealOverhead then none
  else
    let seq := BigEndian.uint (bytes.take 8)
    if seq ≤ c.received then none
    else
      let plain ← A.openText c.secret ((bytes.drop 8).take 12) (bytes.drop 20) (inputAAD 0 (bytes.take 8) epoch)
      some (seq, plain)

/-- `seal`, with the nonce that was drawn. -/
def sealPacket (A : Aead) (c : InputCipher) (data : List UInt8) (epoch : String) (nonce : List UInt8) :
    String × InputCipher :=
  let sent := (c.sent + 1) % 2 ^ 64
  let sequence := BigEndian.put 8 sent
  (PaddedBase64.encodeToString (sequence ++ nonce ++ A.sealText c.secret nonce data (inputAAD 1 sequence epoch)),
    { c with sent })

end InputCipher

/-! ## The system -/

/-- A text that was sealed. -/
structure Text where
  sequence : ℕ
  epoch : String
  nonce : List UInt8
  plain : List UInt8
  deriving DecidableEq

/-- The authenticated data of a text. -/
def Text.aad (direction : UInt8) (t : Text) : List UInt8 := inputAAD direction (BigEndian.put 8 t.sequence) t.epoch

/-- The host's cipher and the endpoints of one identity, with what was sealed and opened so far. -/
structure System where
  host : InputCipher
  /-- The counter of the identity, and its endpoints. -/
  sent : ℕ := 0
  endpoints : List Endpoint := []
  /-- The texts that the Viewer and the Host have sealed. -/
  up : List Text := []
  down : List Text := []
  /-- What the Host has opened: the number, the epoch and the text. -/
  accepted : List (ℕ × String × List UInt8) := []

/-- `receive` hands an endpoint, and `open` the Host, what the network has made up or kept. -/
inductive Event
  | make (identity : InputIdentity) (epoch : String)
  | send (i : ℕ) (data : String)
  | close (i : ℕ)
  | beginSeal (i : ℕ) (nonce : List UInt8)
  | endSeal (i : ℕ)
  | receive (i : ℕ) (data : String)
  | beginOpen (i : ℕ)
  | endOpen (i : ℕ)
  | reply (data : List UInt8) (epoch : String) (nonce : List UInt8)
  | deliver (data epoch : String)

namespace System

/-- The system with another state of an endpoint. -/
def setEndpoint (s : System) (i : ℕ) (e : Endpoint) : System := { s with endpoints := s.endpoints.set i e }

/-- One event. `none` is an event that cannot happen now. -/
def step (A : Aead) (s : System) : Event → Option System
  | .make identity epoch =>
    if identity.secret = s.host.secret ∧ isHex32 epoch then
      some { s with endpoints := s.endpoints ++ [{ identity, epoch, counter := 0, home := none }] }
    else none
  | .send i data => s.endpoints[i]?.map fun e => s.setEndpoint i (e.send data)
  | .close i => s.endpoints[i]?.map fun e => s.setEndpoint i e.close.1
  | .beginSeal i nonce =>
    if nonce.length = 12 then
      s.endpoints[i]?.bind fun e => (e.beginSeal s.sent nonce).map fun out =>
        { s.setEndpoint i out.1 with
          sent := out.2
          up := s.up ++ out.1.sealing.toList.map fun sealing => ⟨sealing.sequence, e.epoch, nonce, sealing.plain⟩ }
    else none
  | .endSeal i => s.endpoints[i]?.bind fun e => (e.endSeal A.subtle).map fun out => s.setEndpoint i out.1
  | .receive i data => s.endpoints[i]?.map fun e => s.setEndpoint i (e.receive data).1
  | .beginOpen i => s.endpoints[i]?.bind fun e => (e.beginOpen A.subtle).map fun e' => s.setEndpoint i e'
  | .endOpen i => s.endpoints[i]?.bind fun e => e.endOpen.map fun e' => s.setEndpoint i e'
  | .reply data epoch nonce =>
    if nonce.length = 12 then
      let host := (s.host.sealPacket A data epoch nonce).2
      some { s with host, down := s.down ++ [⟨host.sent, epoch, nonce, data⟩] }
    else none
  | .deliver data epoch =>
    some (match s.host.openPacket A data epoch with
      | none => s
      | some (seq, plain) =>
        { s with host := { s.host with received := seq }, accepted := s.accepted ++ [(seq, epoch, plain)] })

end System

namespace System

/-! ## What the network can do -/

/-- The text was sealed with this nonce and this authenticated data. -/
def Sealed (s : System) (nonce aad plain : List UInt8) : Prop :=
  (∃ t ∈ s.up, t.nonce = nonce ∧ t.aad 0 = aad ∧ t.plain = plain) ∨
    ∃ t ∈ s.down, t.nonce = nonce ∧ t.aad 1 = aad ∧ t.plain = plain

instance (s : System) (nonce aad plain : List UInt8) : Decidable (s.Sealed nonce aad plain) :=
  inferInstanceAs (Decidable (_ ∨ _))

/-- What opens under the key was sealed. -/
def Authentic (A : Aead) (s : System) (nonce text aad : List UInt8) : Prop :=
  ∀ plain ∈ A.openText s.host.secret nonce text aad, s.Sealed nonce aad plain

instance (A : Aead) (s : System) (nonce text aad : List UInt8) : Decidable (s.Authentic A nonce text aad) :=
  inferInstanceAs (Decidable (∀ plain ∈ A.openText s.host.secret nonce text aad, s.Sealed nonce aad plain))

/-- The packet that a step opens. -/
def Genuine (A : Aead) (s : System) : Event → Prop
  | .deliver data epoch => ∀ bytes ∈ PaddedBase64.decodeString data,
    s.Authentic A ((bytes.drop 8).take 12) (bytes.drop 20) (inputAAD 0 (bytes.take 8) epoch)
  | .beginOpen i => ∀ e ∈ s.endpoints[i]?, ∀ data ∈ e.inbound.head?, ∀ bytes ∈ PaddedBase64.atob data,
    s.Authentic A ((bytes.drop 8).take 12) (bytes.drop 20) (Endpoint.aad 1 (bytes.take 8) e.epoch)
  | _ => True

instance (A : Aead) (s : System) (event : Event) : Decidable (s.Genuine A event) := by
  cases event <;> unfold Genuine <;> infer_instance

/-- Without the key nobody makes a packet that opens. -/
def Unforged (A : Aead) (init : System) (es : List Event) : Prop :=
  ∀ es' e s, es' ++ [e] <+: es → Steps.Reaches (step A) init es' s → s.Genuine A e

/-- On a given run it can be tried. -/
theorem unforged_of_run {A : Aead} {init : System} {es : List Event}
    (h : ∀ k < es.length, ∀ e ∈ es[k]?, ∀ s ∈ Steps.run (step A) init (es.take k), s.Genuine A e) :
    Unforged A init es := by
  intro es' e s hprefix hreach
  have hlen := hprefix.length_le
  rw [List.length_append, List.length_singleton] at hlen
  have htake : es.take es'.length = es' := by
    have hle : es' <+: es := (List.prefix_append _ _).trans hprefix
    exact (List.prefix_iff_eq_take.1 hle).symm
  have hget : es[es'.length]? = some e := by
    obtain ⟨rest, rfl⟩ := hprefix
    simp
  refine h es'.length (by omega) e hget s ?_
  rw [htake]
  exact Steps.run_of_reaches hreach

/-! ## What is taken was sealed -/

/-- What holds of every system that a run reaches. -/
structure Sound (s : System) : Prop where
  secret : ∀ (i : ℕ) (e : Endpoint), s.endpoints[i]? = some e →
    e.identity.secret = s.host.secret ∧ e.epoch.utf8ByteSize = 32 ∧ e.Accounts
  up : Rising Text.sequence s.up s.sent
  epochs : ∀ t ∈ s.up, t.epoch.utf8ByteSize = 32
  down : Rising Text.sequence s.down s.host.sent
  accepted : Rising Prod.fst s.accepted s.host.received
  taken : ∀ a ∈ s.accepted, ∃ t ∈ s.up, a = (t.sequence, t.epoch, t.plain)
  opening : ∀ (i : ℕ) (e : Endpoint) o plain, s.endpoints[i]? = some e → e.opening = some o → o.plain = some plain →
    ∃ t ∈ s.down, t.epoch = e.epoch ∧ o.sequence = t.sequence ∧ plain = t.plain
  delivered : ∀ (i : ℕ) (e : Endpoint), s.endpoints[i]? = some e → ∀ d ∈ e.delivered,
    ∃ t ∈ s.down, t.epoch = e.epoch ∧ d = (t.sequence, t.plain)

variable {A : Aead} {s s' : System} {e e' : Endpoint} {i : ℕ}

theorem sound_init (secret : String) : Sound { host := { secret } } where
  secret := by simp
  up := by simp
  epochs := by simp
  down := by simp
  accepted := by simp
  taken := by simp
  opening := by simp
  delivered := by simp

/-- An endpoint has done a step in which it opens nothing new. -/
theorem Sound.setEndpoint (h : Sound s) (hi : s.endpoints[i]? = some e) (hsame : e.Same e') (haccounts : e'.Accounts)
    (hopening : ∀ o plain, e'.opening = some o → o.plain = some plain →
      ∃ t ∈ s.down, t.epoch = e.epoch ∧ o.sequence = t.sequence ∧ plain = t.plain)
    (hdelivered : ∀ d ∈ e'.delivered, ∃ t ∈ s.down, t.epoch = e.epoch ∧ d = (t.sequence, t.plain)) :
    Sound (s.setEndpoint i e') := by
  obtain ⟨hlt, -⟩ := List.getElem?_eq_some_iff.1 hi
  have hget : ∀ (j : ℕ) (e₁ : Endpoint), (s.endpoints.set i e')[j]? = some e₁ →
      s.endpoints[j]? = some e₁ ∨ e₁ = e' := by
    intro j e₁ he₁
    rw [List.getElem?_set] at he₁
    simp only [hlt, if_true] at he₁
    split at he₁
    · exact .inr (Option.some.inj he₁).symm
    · exact .inl he₁
  refine ⟨?_, h.up, h.epochs, h.down, h.accepted, h.taken, ?_, ?_⟩
  · intro j e₁ he₁
    rcases hget j e₁ he₁ with he₁ | rfl
    · exact h.secret j e₁ he₁
    · obtain ⟨hsecret, hepoch, -⟩ := h.secret i e hi
      exact ⟨hsame.identity ▸ hsecret, hsame.epoch ▸ hepoch, haccounts⟩
  · intro j e₁ o plain he₁ ho hplain
    rcases hget j e₁ he₁ with he₁ | rfl
    · exact h.opening j e₁ o plain he₁ ho hplain
    · rw [hsame.epoch]
      exact hopening o plain ho hplain
  · intro j e₁ he₁
    rcases hget j e₁ he₁ with he₁ | rfl
    · exact h.delivered j e₁ he₁
    · rw [hsame.epoch]
      exact hdelivered

/-- The same, when what the endpoint is opening and has dispatched stays. -/
theorem Sound.keeps (h : Sound s) (hi : s.endpoints[i]? = some e) (hsame : e.Same e') (haccounts : e'.Accounts)
    (hopening : e'.opening = e.opening) (hdelivered : e'.delivered = e.delivered) :
    Sound (s.setEndpoint i e') := by
  refine h.setEndpoint hi hsame haccounts ?_ ?_
  · intro o plain ho
    exact h.opening i e o plain hi (hopening ▸ ho)
  · rw [hdelivered]
    exact h.delivered i e hi

/-! ### The authenticated data -/

theorem inputAAD_inj {d d' : UInt8} {seq seq' : List UInt8} {epoch epoch' : String} (hlen : seq.length = seq'.length)
    (h : inputAAD d seq epoch = inputAAD d' seq' epoch') : d = d' ∧ seq = seq' ∧ epoch = epoch' := by
  obtain ⟨hd, hrest⟩ := List.cons.inj h
  obtain ⟨hseq, hepoch⟩ := List.append_inj hrest hlen
  exact ⟨hd, hseq, Utf8.bytes_inj hepoch⟩

/-- The browser fills the 41 bytes as the Host joins the parts. -/
theorem aad_eq {d : UInt8} {seq : List UInt8} {epoch : String} (h : epoch.utf8ByteSize = 32) :
    Endpoint.aad d seq epoch = inputAAD d seq epoch := by
  simp [Endpoint.aad, inputAAD, h]

/-- The text whose authenticated data a packet claims. -/
theorem Text.claimed {t : Text} {d : UInt8} {bytes : List UInt8} {epoch : String} (hlen : 8 ≤ bytes.length)
    (hlt : t.sequence < 2 ^ 64) (h : t.aad d = inputAAD d (bytes.take 8) epoch) :
    BigEndian.uint (bytes.take 8) = t.sequence ∧ t.epoch = epoch := by
  have htake : (BigEndian.put 8 t.sequence).length = (bytes.take 8).length := by simp [hlen]
  obtain ⟨-, hseq, hepoch⟩ := inputAAD_inj htake h
  refine ⟨?_, hepoch⟩
  rw [← hseq, BigEndian.uint_put_of_lt]
  simpa using hlt

theorem Text.reflected {t : Text} {d d' : UInt8} {bytes : List UInt8} {epoch : String} (hlen : 8 ≤ bytes.length)
    (hne : d ≠ d') : t.aad d ≠ inputAAD d' (bytes.take 8) epoch := by
  intro h
  have htake : (BigEndian.put 8 t.sequence).length = (bytes.take 8).length := by simp [hlen]
  exact hne (inputAAD_inj htake h).1

/-! ### The steps -/

theorem utf8ByteSize_of_hex {epoch : String} (h : isHex32 epoch = true) : epoch.utf8ByteSize = 32 := by
  simp only [isHex32, Bool.and_eq_true, decide_eq_true_eq, List.all_eq_true] at h
  obtain ⟨hlen, hall⟩ := h
  rw [Utf8.utf8ByteSize_ascii, hlen]
  intro c hc
  have hrange := hall c hc
  simp only [Bool.or_eq_true, Bool.and_eq_true, decide_eq_true_eq] at hrange
  rcases hrange with ⟨-, hle⟩ | ⟨-, hle⟩
  · exact lt_of_le_of_lt (UInt32.le_iff_toNat_le.1 hle) (by decide)
  · exact lt_of_le_of_lt (UInt32.le_iff_toNat_le.1 hle) (by decide)

theorem sound_make {identity : InputIdentity} {epoch : String} (h : Sound s)
    (hidentity : identity.secret = s.host.secret ∧ isHex32 epoch = true) :
    Sound { s with endpoints := s.endpoints ++ [{ identity, epoch, counter := 0, home := none }] } := by
  have hget : ∀ (j : ℕ) (e : Endpoint),
      (s.endpoints ++ [({ identity, epoch, counter := 0, home := none } : Endpoint)])[j]? = some e →
      s.endpoints[j]? = some e ∨ e = { identity, epoch, counter := 0, home := none } := by
    intro j e he
    rw [List.getElem?_append] at he
    split at he
    · exact .inl he
    · obtain ⟨hj, rfl⟩ := List.getElem?_eq_some_iff.1 he
      exact .inr (by simp)
  refine ⟨?_, h.up, h.epochs, h.down, h.accepted, h.taken, ?_, ?_⟩
  · intro j e he
    rcases hget j e he with he | rfl
    · exact h.secret j e he
    · exact ⟨hidentity.1, utf8ByteSize_of_hex hidentity.2, Endpoint.Accounts.fresh _ _ _ _⟩
  · intro j e o plain he ho
    rcases hget j e he with he | rfl
    · exact h.opening j e o plain he ho
    · cases ho
  · intro j e he d hd
    rcases hget j e he with he | rfl
    · exact h.delivered j e he d hd
    · cases hd

/-- The Host takes what the Viewer has sealed. -/
theorem sound_deliver {data epoch : String} (h : Sound s) (hlt : s.sent < 2 ^ 64)
    (hgenuine : s.Genuine A (.deliver data epoch)) (hs : s.step A (.deliver data epoch) = some s') : Sound s' := by
  obtain rfl := Option.some.inj hs
  split
  · exact h
  · next seq plain hopen =>
    obtain ⟨bytes, hbytes, hopen⟩ := Option.bind_eq_some_iff.1 hopen
    split at hopen
    · cases hopen
    · next hlen =>
      dsimp only at hopen
      split at hopen
      · cases hopen
      · next hstale =>
        obtain ⟨plain', hplain, hopen⟩ := Option.bind_eq_some_iff.1 hopen
        cases hopen
        have hlen : 8 ≤ bytes.length := by
          by_contra hshort
          exact hlen (Bool.or_eq_true_iff.2 (.inl (decide_eq_true (by omega))))
        have htaken : ∃ t ∈ s.up, (BigEndian.uint (bytes.take 8), epoch, plain) = (t.sequence, t.epoch, t.plain) := by
          rcases hgenuine bytes hbytes plain hplain with ⟨t, ht, -, haad, rfl⟩ | ⟨t, -, -, haad, -⟩
          · obtain ⟨hseq, rfl⟩ := Text.claimed hlen (lt_of_le_of_lt (h.up.below t ht) hlt) haad
            exact ⟨t, ht, by rw [hseq]⟩
          · exact absurd haad (Text.reflected hlen (by decide))
        refine ⟨h.secret, h.up, h.epochs, h.down, h.accepted.snoc (not_le.1 hstale), ?_, h.opening, h.delivered⟩
        intro a ha
        rcases List.mem_append.1 ha with ha | ha
        · exact h.taken a ha
        · rw [List.mem_singleton.1 ha]
          exact htaken

theorem sound_reply {data nonce : List UInt8} {epoch : String} (h : Sound s) (hlt : s.host.sent + 1 < 2 ^ 64) :
    Sound { s with host := (s.host.sealPacket A data epoch nonce).2
                   down := s.down ++ [⟨(s.host.sealPacket A data epoch nonce).2.sent, epoch, nonce, data⟩] } := by
  have hsent : (s.host.sealPacket A data epoch nonce).2.sent = s.host.sent + 1 := Nat.mod_eq_of_lt hlt
  have hmem : ∀ t ∈ s.down, t ∈ s.down ++ [⟨(s.host.sealPacket A data epoch nonce).2.sent, epoch, nonce, data⟩] :=
    fun t ht => List.mem_append_left _ ht
  refine ⟨h.secret, h.up, h.epochs, ?_, h.accepted, h.taken, ?_, ?_⟩
  · refine h.down.snoc (a := ⟨_, epoch, nonce, data⟩) ?_
    show s.host.sent < _
    rw [hsent]
    exact Nat.lt_succ_self _
  · intro i e o plain he ho hplain
    obtain ⟨t, ht, heq⟩ := h.opening i e o plain he ho hplain
    exact ⟨t, hmem t ht, heq⟩
  · intro i e he d hd
    obtain ⟨t, ht, heq⟩ := h.delivered i e he d hd
    exact ⟨t, hmem t ht, heq⟩

theorem sound_beginSeal {nonce : List UInt8} {out : Endpoint × ℕ} (h : Sound s) (hi : s.endpoints[i]? = some e)
    (hs : e.beginSeal s.sent nonce = some out) :
    Sound { s.setEndpoint i out.1 with
      sent := out.2
      up := s.up ++ out.1.sealing.toList.map fun sealing => ⟨sealing.sequence, e.epoch, nonce, sealing.plain⟩ } := by
  obtain ⟨e', sent'⟩ := out
  obtain ⟨-, hepoch, haccounts⟩ := h.secret i e hi
  obtain ⟨hsame, -, -, hcase⟩ := Endpoint.beginSeal_spec hs
  have hstays : e'.opening = e.opening ∧ e'.delivered = e.delivered := by
    unfold Endpoint.beginSeal at hs
    split at hs
    · split at hs <;> cases hs <;> exact ⟨rfl, rfl⟩
    · cases hs
  have hkeeps := h.keeps hi hsame (haccounts.beginSeal hs) hstays.1 hstays.2
  rcases hcase with ⟨-, hnone, rfl⟩ | ⟨-, rfl, plain, htaken⟩
  · simp only [hnone, Option.toList, List.map_nil, List.append_nil]
    exact ⟨hkeeps.secret, h.up, h.epochs, h.down, h.accepted, h.taken, hkeeps.opening, hkeeps.delivered⟩
  · simp only [htaken, Option.toList, List.map_cons, List.map_nil]
    refine ⟨hkeeps.secret, h.up.snoc (a := ⟨_, e.epoch, nonce, plain⟩) (Nat.lt_succ_self _), ?_, h.down, h.accepted,
      ?_, hkeeps.opening, hkeeps.delivered⟩
    · intro t ht
      rcases List.mem_append.1 ht with ht | ht
      · exact h.epochs t ht
      · rw [List.mem_singleton.1 ht]
        exact hepoch
    · intro a ha
      obtain ⟨t, ht, heq⟩ := h.taken a ha
      exact ⟨t, List.mem_append_left _ ht, heq⟩

theorem sound_beginOpen (h : Sound s) (hi : s.endpoints[i]? = some e) (hlt : s.host.sent < 2 ^ 64)
    (hgenuine : s.Genuine A (.beginOpen i)) (hs : e.beginOpen A.subtle = some e') : Sound (s.setEndpoint i e') := by
  obtain ⟨hsecret, hepoch, haccounts⟩ := h.secret i e hi
  have hsame : e.Same e' := by
    obtain ⟨hemits, -⟩ := Endpoint.emits_beginOpen hs
    cases hemits
    assumption
  have haccounts := haccounts.beginOpen hs
  unfold Endpoint.beginOpen at hs
  split at hs
  · next data rest hopening hinbound =>
    split at hs
    · cases hs
      exact h.keeps hi hsame haccounts rfl rfl
    · next opening heq =>
      cases hs
      obtain ⟨-, heq⟩ := Option.ite_none_right_eq_some.1 heq
      refine h.setEndpoint hi hsame haccounts ?_ (h.delivered i e hi)
      intro o plain ho hplain
      obtain rfl := Option.some.inj ho
      obtain ⟨bytes, hbytes, heq⟩ := Option.bind_eq_some_iff.1 heq
      split at heq
      · cases heq
      · next hlen =>
        dsimp only at heq
        split at heq
        · cases heq
        · cases heq
          have hlen : 8 ≤ bytes.length := by omega
          have hplain : A.openText s.host.secret ((bytes.drop 8).take 12) (bytes.drop 20)
              (Endpoint.aad 1 (bytes.take 8) e.epoch) = some plain := hsecret ▸ hplain
          have hgenuine := hgenuine e hi data (by rw [hinbound]; rfl) bytes hbytes plain hplain
          rw [aad_eq hepoch] at hgenuine
          rcases hgenuine with ⟨t, -, -, haad, -⟩ | ⟨t, ht, -, haad, rfl⟩
          · exact absurd haad (Text.reflected hlen (by decide))
          · obtain ⟨hseq, heq⟩ := Text.claimed hlen (lt_of_le_of_lt (h.down.below t ht) hlt) haad
            exact ⟨t, ht, heq, hseq, rfl⟩
  · cases hs

theorem sound_endOpen (h : Sound s) (hi : s.endpoints[i]? = some e) (hs : e.endOpen = some e') :
    Sound (s.setEndpoint i e') := by
  obtain ⟨-, -, haccounts⟩ := h.secret i e hi
  have hsame : e.Same e' := by
    obtain ⟨hemits, -⟩ := Endpoint.emits_endOpen hs
    cases hemits
    assumption
  have haccounts := haccounts.endOpen hs
  obtain ⟨opening, hopening, hs⟩ := Option.map_eq_some_iff.1 hs
  have hdelivered := h.delivered i e hi
  dsimp only at hs
  split at hs
  · cases hs
    exact h.setEndpoint hi hsame haccounts (by simp) hdelivered
  · next plain hplain =>
    split at hs
    · cases hs
      exact h.setEndpoint hi hsame haccounts (by simp) hdelivered
    · cases hs
      refine h.setEndpoint hi hsame haccounts (by simp) ?_
      intro d hd
      rcases List.mem_append.1 hd with hd | hd
      · exact hdelivered d hd
      · rw [List.mem_singleton.1 hd]
        obtain ⟨t, ht, heq, hseq, rfl⟩ := h.opening i e opening plain hi hopening hplain
        exact ⟨t, ht, heq, by rw [hseq]⟩

theorem sound_step {event : Event} (h : Sound s) (hlt : s.sent < 2 ^ 64) (hlt' : s.host.sent + 1 < 2 ^ 64)
    (hgenuine : s.Genuine A event) (hs : s.step A event = some s') : Sound s' := by
  have hsame : ∀ {e e' : Endpoint} {out : Option Transmission}, e.Emits e' out → e.Same e' := by
    intro e e' out hemits
    cases hemits <;> assumption
  cases event with
  | make identity epoch =>
    obtain ⟨hidentity, hs⟩ := Option.ite_none_right_eq_some.1 hs
    obtain rfl := Option.some.inj hs
    exact sound_make h hidentity
  | send i data =>
    obtain ⟨e, hi, rfl⟩ := Option.map_eq_some_iff.1 hs
    obtain ⟨-, -, haccounts⟩ := h.secret i e hi
    refine h.keeps hi (hsame Endpoint.emits_send.1) haccounts.send ?_ ?_ <;>
      unfold Endpoint.send <;> split <;> rfl
  | close i =>
    obtain ⟨e, hi, rfl⟩ := Option.map_eq_some_iff.1 hs
    obtain ⟨-, -, haccounts⟩ := h.secret i e hi
    refine h.keeps hi (hsame Endpoint.emits_close.1) haccounts.close ?_ ?_ <;>
      unfold Endpoint.close <;> split <;> rfl
  | beginSeal i nonce =>
    obtain ⟨-, hs⟩ := Option.ite_none_right_eq_some.1 hs
    obtain ⟨e, hi, hs⟩ := Option.bind_eq_some_iff.1 hs
    obtain ⟨out, hout, rfl⟩ := Option.map_eq_some_iff.1 hs
    exact sound_beginSeal h hi hout
  | endSeal i =>
    obtain ⟨e, hi, hs⟩ := Option.bind_eq_some_iff.1 hs
    obtain ⟨out, hout, rfl⟩ := Option.map_eq_some_iff.1 hs
    obtain ⟨-, -, haccounts⟩ := h.secret i e hi
    have hstays : out.1.opening = e.opening ∧ out.1.delivered = e.delivered := by
      obtain ⟨sealing, -, rfl⟩ := Option.map_eq_some_iff.1 hout
      dsimp only
      split
      · unfold Endpoint.close
        split <;> exact ⟨rfl, rfl⟩
      · split <;> exact ⟨rfl, rfl⟩
    exact h.keeps hi (hsame (Endpoint.emits_endSeal hout).1) (haccounts.endSeal hout) hstays.1 hstays.2
  | receive i data =>
    obtain ⟨e, hi, rfl⟩ := Option.map_eq_some_iff.1 hs
    obtain ⟨-, -, haccounts⟩ := h.secret i e hi
    have hstays : (e.receive data).1.opening = e.opening ∧ (e.receive data).1.delivered = e.delivered := by
      unfold Endpoint.receive
      split
      · unfold Endpoint.close
        split <;> exact ⟨rfl, rfl⟩
      · exact ⟨rfl, rfl⟩
    exact h.keeps hi (hsame Endpoint.emits_receive.1) haccounts.receive hstays.1 hstays.2
  | beginOpen i =>
    obtain ⟨e, hi, hs⟩ := Option.bind_eq_some_iff.1 hs
    obtain ⟨e', hopen, rfl⟩ := Option.map_eq_some_iff.1 hs
    exact sound_beginOpen h hi (Nat.lt_of_succ_lt hlt') hgenuine hopen
  | endOpen i =>
    obtain ⟨e, hi, hs⟩ := Option.bind_eq_some_iff.1 hs
    obtain ⟨e', hopen, rfl⟩ := Option.map_eq_some_iff.1 hs
    exact sound_endOpen h hi hopen
  | reply data epoch nonce =>
    obtain ⟨-, hs⟩ := Option.ite_none_right_eq_some.1 hs
    obtain rfl := Option.some.inj hs
    exact sound_reply h hlt'
  | deliver data epoch => exact sound_deliver h hlt hgenuine hs

/-- A step seals one text at most on each side. -/
theorem counts_step {event : Event} (hs : s.step A event = some s') :
    s'.sent ≤ s.sent + 1 ∧ s'.host.sent ≤ s.host.sent + 1 := by
  cases event with
  | make identity epoch =>
    obtain ⟨-, hs⟩ := Option.ite_none_right_eq_some.1 hs
    obtain rfl := Option.some.inj hs
    exact ⟨Nat.le_succ _, Nat.le_succ _⟩
  | send i data =>
    obtain ⟨e, -, rfl⟩ := Option.map_eq_some_iff.1 hs
    exact ⟨Nat.le_succ _, Nat.le_succ _⟩
  | close i =>
    obtain ⟨e, -, rfl⟩ := Option.map_eq_some_iff.1 hs
    exact ⟨Nat.le_succ _, Nat.le_succ _⟩
  | beginSeal i nonce =>
    obtain ⟨-, hs⟩ := Option.ite_none_right_eq_some.1 hs
    obtain ⟨e, -, hs⟩ := Option.bind_eq_some_iff.1 hs
    obtain ⟨out, hout, rfl⟩ := Option.map_eq_some_iff.1 hs
    obtain ⟨-, -, -, ⟨-, -, hsent⟩ | ⟨-, hsent, -⟩⟩ := Endpoint.beginSeal_spec hout
    · exact ⟨hsent.le.trans (Nat.le_succ _), Nat.le_succ _⟩
    · exact ⟨hsent.le, Nat.le_succ _⟩
  | endSeal i =>
    obtain ⟨e, -, hs⟩ := Option.bind_eq_some_iff.1 hs
    obtain ⟨out, -, rfl⟩ := Option.map_eq_some_iff.1 hs
    exact ⟨Nat.le_succ _, Nat.le_succ _⟩
  | receive i data =>
    obtain ⟨e, -, rfl⟩ := Option.map_eq_some_iff.1 hs
    exact ⟨Nat.le_succ _, Nat.le_succ _⟩
  | beginOpen i =>
    obtain ⟨e, -, hs⟩ := Option.bind_eq_some_iff.1 hs
    obtain ⟨e', -, rfl⟩ := Option.map_eq_some_iff.1 hs
    exact ⟨Nat.le_succ _, Nat.le_succ _⟩
  | endOpen i =>
    obtain ⟨e, -, hs⟩ := Option.bind_eq_some_iff.1 hs
    obtain ⟨e', -, rfl⟩ := Option.map_eq_some_iff.1 hs
    exact ⟨Nat.le_succ _, Nat.le_succ _⟩
  | reply data epoch nonce =>
    obtain ⟨-, hs⟩ := Option.ite_none_right_eq_some.1 hs
    obtain rfl := Option.some.inj hs
    exact ⟨Nat.le_succ _, Nat.mod_le _ _⟩
  | deliver data epoch =>
    obtain rfl := Option.some.inj hs
    split <;> exact ⟨Nat.le_succ _, Nat.le_succ _⟩

theorem reaches_sound {secret : String} {es : List Event} (h : Steps.Reaches (step A) { host := { secret } } es s)
    (hunforged : Unforged A { host := { secret } } es) (hlen : es.length < 2 ^ 64) :
    Sound s ∧ s.sent ≤ es.length ∧ s.host.sent ≤ es.length := by
  induction h with
  | start => exact ⟨sound_init secret, le_rfl, le_rfl⟩
  | @next es event s s' hreach hs ih =>
    rw [List.length_append, List.length_singleton] at hlen ⊢
    have hprefix : ∀ es' e s, es' ++ [e] <+: es → Steps.Reaches (step A) { host := { secret } } es' s →
        s.Genuine A e := fun es' e s hes' => hunforged es' e s (hes'.trans (List.prefix_append _ _))
    obtain ⟨hsound, hup, hdown⟩ := ih hprefix (by omega)
    obtain ⟨hup', hdown'⟩ := counts_step hs
    refine ⟨sound_step hsound (by omega) (by omega) (hunforged es event s List.prefix_rfl hreach) hs, ?_, ?_⟩
    · omega
    · omega

/-- **What the Host and the Viewer take is what the other has sealed.**  Whatever the network delivers,
    loses, repeats, reorders or sends back: the texts that the Host opens are texts of the Viewer's
    endpoints, each with its epoch, in the order in which they were sealed and none twice; and those
    that an endpoint dispatches are texts that the Host has sealed for its epoch, in that order and
    none twice. -/
theorem cipher_channel {secret : String} {es : List Event}
    (h : Steps.Reaches (step A) { host := { secret } } es s)
    (hunforged : Unforged A { host := { secret } } es) (hlen : es.length < 2 ^ 64) :
    s.accepted.Sublist (s.up.map fun t => (t.sequence, t.epoch, t.plain)) ∧
    ∀ (i : ℕ) (e : Endpoint), s.endpoints[i]? = some e →
      e.delivered.Sublist ((s.down.filter fun t => t.epoch = e.epoch).map fun t => (t.sequence, t.plain)) := by
  obtain ⟨hsound, -, -⟩ := reaches_sound h hunforged hlen
  constructor
  · have hup : Rising Prod.fst (s.up.map fun t => (t.sequence, t.epoch, t.plain)) s.sent := hsound.up.map fun _ => rfl
    refine hsound.accepted.sublist hup fun a ha => ?_
    obtain ⟨t, ht, rfl⟩ := hsound.taken a ha
    exact List.mem_map.2 ⟨t, ht, rfl⟩
  · intro i e hi
    obtain ⟨-, -, haccounts⟩ := hsound.secret i e hi
    have hdelivered : Rising Prod.fst e.delivered e.received := ⟨haccounts.rising, haccounts.below⟩
    have hdown : Rising Prod.fst ((s.down.filter fun t => t.epoch = e.epoch).map fun t => (t.sequence, t.plain))
        s.host.sent := (hsound.down.filter _).map fun _ => rfl
    refine hdelivered.sublist hdown fun d hd => ?_
    obtain ⟨t, ht, hepoch, rfl⟩ := hsound.delivered i e hi d hd
    exact List.mem_map.2 ⟨t, List.mem_filter.2 ⟨ht, decide_eq_true hepoch⟩, rfl⟩

/-- A cipher that hides nothing: the text and sixteen bytes. -/
def plainAead : Aead where
  sealText := fun _ _ plain _ => plain ++ List.replicate 16 0
  openText := fun _ _ text _ => if text.length < 16 then none else some (text.take (text.length - 16))
  open_seal := by
    intro _ _ plain _
    have hlen : (plain ++ List.replicate 16 (0 : UInt8)).length - 16 = plain.length := by simp
    rw [if_neg (by simp), hlen, List.take_left' rfl]
  length_seal := by simp [Manager.sealOverhead]

/-- A text is delivered twice, and taken once. -/
theorem cipher_channel_twice :
    let id := "00112233445566778899aabbccddeeff"
    let data := PaddedBase64.encodeToString (BigEndian.put 8 1 ++ List.replicate 12 7 ++ [97] ++ List.replicate 16 0)
    let es : List Event := [.make ⟨id, "key"⟩ id, .send 0 "a", .beginSeal 0 (List.replicate 12 7), .endSeal 0,
      .deliver data id, .deliver data id]
    ∃ s, Steps.Reaches (step plainAead) { host := { secret := "key" } } es s ∧ s.accepted = [(1, id, [97])] ∧
      s.accepted.Sublist (s.up.map fun t => (t.sequence, t.epoch, t.plain)) := by
  intro id data es
  have hrun : (Steps.run (step plainAead) { host := { secret := "key" } } es).map (fun s =>
      decide (s.accepted = [(1, id, [97])])) = some true := by
    decide +kernel
  have htried : ∀ k < es.length, ∀ e ∈ es[k]?,
      ∀ s ∈ Steps.run (step plainAead) { host := { secret := "key" } } (es.take k),
      s.Genuine plainAead e := by
    decide +kernel
  obtain ⟨s, hs, hend⟩ := Option.map_eq_some_iff.1 hrun
  have hreach := Steps.reaches_of_run hs
  exact ⟨s, hreach, of_decide_eq_true hend,
    (cipher_channel hreach (unforged_of_run htried) (by simp [es])).1⟩

end System

/-- The manager of the Host opens with this cipher. -/
theorem manager_openPacket {A : Aead} {c : InputCipher} {σ : Type} (P : Platform σ)
    (conn : Connection) (data epoch : String) (hbase64 : P.base64 = PaddedBase64.decodeString)
    (hopen : P.openSealed = A.openText)
    (hsecret : conn.secret = c.secret) (hreceived : conn.received = c.received) :
    Manager.openPacket P conn data epoch = c.openPacket A data epoch := by
  have huint : ∀ bytes : List UInt8, Sha256.ofBytes (bytes.map UInt8.toNat) = BigEndian.uint bytes := by
    intro bytes
    simp [Sha256.ofBytes, BigEndian.uint, List.foldl_map]
  simp only [Manager.openPacket, InputCipher.openPacket, hbase64, hopen, hsecret, hreceived, huint, inputAAD]

end Piik.Input.Cipher
