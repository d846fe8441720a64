/-
  Padded base64 with the standard alphabet: one encoder, and two decoders that
  differ in what they forgive.  The Go package `encoding/base64` skips line
  breaks and wants the padding; `atob` of the browser skips white space and
  takes the padding or none.
-/
import Piik.Lib.Base64

namespace PaddedBase64

/-- The standard alphabet. -/
def alphabet : List Char :=
  "ABCDEFGHIJKLMNOPQRSTUVWXYZabcdefghijklmnopqrstuvwxyz0123456789+/".toList

/-- The character of a value. -/
def digit (n : ℕ) : Char := alphabet.getD n 'A'

/-- The value of a character. -/
def value (c : Char) : Option ℕ := alphabet.idxOf? c

/-- The bits of the bytes, six at a time. -/
def sextets : List UInt8 → List ℕ
  | [] => []
  | [a] => [a.toNat / 4, a.toNat % 4 * 16]
  | [a, b] => [a.toNat / 4, a.toNat % 4 * 16 + b.toNat / 16, b.toNat % 16 * 4]
  | a :: b :: c :: rest =>
    (a.toNat / 4) :: (a.toNat % 4 * 16 + b.toNat / 16) :: (b.toNat % 16 * 4 + c.toNat / 64) ::
      (c.toNat % 64) :: sextets rest

/-- What fills up the last group. -/
def padding : List UInt8 → List Char
  | [] => []
  | [_] => ['=', '=']
  | [_, _] => ['=']
  | _ :: _ :: _ :: rest => padding rest

/-- `EncodeToString` of `StdEncoding`, and `btoa`. -/
def encodeToString (bytes : List UInt8) : String :=
  String.ofList ((sextets bytes).map digit ++ padding bytes)

/-- The groups of four characters; only the last may be padded. -/
def decodeQuanta : List Char → Option (List UInt8)
  | [] => some []
  | [a, b, '=', '='] => do
    let values ← [a, b].mapM value
    Base64.decodeValues values
  | [a, b, c, '='] => do
    let values ← [a, b, c].mapM value
    Base64.decodeValues values
  | a :: b :: c :: d :: rest => do
    let values ← [a, b, c, d].mapM value
    let bytes ← Base64.decodeValues values
    let more ← decodeQuanta rest
    some (bytes ++ more)
  | _ => none

/-- `DecodeString` of `StdEncoding` -/
def decodeString (text : String) : Option (List UInt8) :=
  decodeQuanta (text.toList.filter fun c => c ≠ '\n' && c ≠ '\r')

/-- The whitespace that a decoder skips. -/
def isAsciiWhitespace (c : Char) : Bool := c.toNat ∈ [0x9, 0xA, 0xC, 0xD, 0x20]

/-- At most two characters of padding, where they complete a group. -/
def stripPadding (cs : List Char) : List Char :=
  if cs.length % 4 ≠ 0 then cs
  else if ['=', '='] <:+ cs then cs.dropLast.dropLast
  else if ['='] <:+ cs then cs.dropLast
  else cs

/-- `atob` -/
def atob (text : String) : Option (List UInt8) := do
  let values ← (stripPadding (text.toList.filter fun c => !isAsciiWhitespace c)).mapM value
  Base64.decodeValues values

variable {bytes : List UInt8} {n : ℕ}

theorem value_digit (h : n < 64) : value (digit n) = some n := by
  have hall : ∀ n : Fin 64, value (digit n) = some n.val := by decide +kernel
  exact hall ⟨n, h⟩

theorem plain_digit (h : n < 64) :
    digit n ≠ '\n' ∧ digit n ≠ '\r' ∧ digit n ≠ '=' ∧ isAsciiWhitespace (digit n) = false := by
  have hall : ∀ n : Fin 64, digit n ≠ '\n' ∧ digit n ≠ '\r' ∧ digit n ≠ '=' ∧
      isAsciiWhitespace (digit n) = false := by
    decide +kernel
  exact hall ⟨n, h⟩

theorem sextets_lt : ∀ v ∈ sextets bytes, v < 64 := by
  fun_induction sextets bytes with
  | case1 => simp
  | case2 a =>
    have ha := a.toNat_lt
    intro v hv
    simp only [List.mem_cons, List.not_mem_nil, or_false] at hv
    omega
  | case3 a b =>
    have ha := a.toNat_lt
    have hb := b.toNat_lt
    intro v hv
    simp only [List.mem_cons, List.not_mem_nil, or_false] at hv
    omega
  | case4 a b c rest ih =>
    have ha := a.toNat_lt
    have hb := b.toNat_lt
    have hc := c.toNat_lt
    intro v hv
    simp only [List.mem_cons] at hv
    rcases hv with rfl | rfl | rfl | rfl | hv
    · omega
    · omega
    · omega
    · omega
    · exact ih v hv

theorem mapM_value_digit {vs : List ℕ} (h : ∀ v ∈ vs, v < 64) : (vs.map digit).mapM value = some vs := by
  induction vs with
  | nil => rfl
  | cons v vs ih =>
    have hv := value_digit (h v List.mem_cons_self)
    have hvs := ih fun v' hv' => h v' (List.mem_cons_of_mem _ hv')
    rw [List.map_cons, List.mapM_cons, hv, hvs]
    rfl

/-- A byte is put together from its bits. -/
theorem ofNat_bits {b : UInt8} {v : ℕ} (h : v % 256 = b.toNat) : UInt8.ofNat v = b := by
  refine UInt8.toNat_inj.1 ?_
  rw [UInt8.toNat_ofNat']
  exact h

theorem decodeValues_sextets : Base64.decodeValues (sextets bytes) = some bytes := by
  fun_induction sextets bytes with
  | case1 => rfl
  | case2 a =>
    have ha := a.toNat_lt
    rw [Base64.decodeValues, ofNat_bits]
    omega
  | case3 a b =>
    have ha := a.toNat_lt
    have hb := b.toNat_lt
    rw [Base64.decodeValues, ofNat_bits (b := a) (by omega), ofNat_bits (b := b) (by omega)]
  | case4 a b c rest ih =>
    have ha := a.toNat_lt
    have hb := b.toNat_lt
    have hc := c.toNat_lt
    rw [Base64.decodeValues, ih, ofNat_bits (b := a) (by omega), ofNat_bits (b := b) (by omega),
      ofNat_bits (b := c) (by omega)]
    rfl

theorem padding_cases : ∀ bytes, padding bytes = [] ∨ padding bytes = ['='] ∨ padding bytes = ['=', '=']
  | [] => .inl rfl
  | [_] => .inr (.inr rfl)
  | [_, _] => .inr (.inl rfl)
  | _ :: _ :: _ :: rest => padding_cases rest

theorem length_padded : ∀ bytes, ((sextets bytes).length + (padding bytes).length) % 4 = 0
  | [] => rfl
  | [_] => by simp [sextets, padding]
  | [_, _] => by simp [sextets, padding]
  | a :: b :: c :: rest => by
    have ih := length_padded rest
    simp only [sextets, padding, List.length_cons]
    omega

theorem mem_padding {c : Char} (h : c ∈ padding bytes) : c = '=' := by
  rcases padding_cases bytes with heq | heq | heq <;> simp_all

theorem filter_encode {p : Char → Bool} (hdigit : ∀ n < 64, p (digit n) = true) (hpad : p '=' = true) :
    (encodeToString bytes).toList.filter p = (sextets bytes).map digit ++ padding bytes := by
  rw [encodeToString, String.toList_ofList, List.filter_eq_self]
  intro c hc
  rcases List.mem_append.1 hc with hc | hc
  · obtain ⟨v, hv, rfl⟩ := List.mem_map.1 hc
    exact hdigit v (sextets_lt v hv)
  · rw [mem_padding hc, hpad]

theorem decodeQuanta_encode : decodeQuanta ((sextets bytes).map digit ++ padding bytes) = some bytes := by
  fun_induction sextets bytes with
  | case1 => rfl
  | case2 a =>
    have hlt := @sextets_lt [a]
    have hvalues := mapM_value_digit hlt
    have hbytes := @decodeValues_sextets [a]
    simp only [sextets, List.map_cons, List.map_nil] at hvalues hbytes
    simp only [padding, List.map_cons, List.map_nil, List.cons_append, List.nil_append, decodeQuanta]
    rw [hvalues]
    exact hbytes
  | case3 a b =>
    have hlt := @sextets_lt [a, b]
    have hvalues := mapM_value_digit hlt
    have hbytes := @decodeValues_sextets [a, b]
    have hne := (plain_digit (hlt _ (by simp [sextets] : b.toNat % 16 * 4 ∈ sextets [a, b]))).2.2.1
    simp only [sextets, List.map_cons, List.map_nil] at hvalues hbytes
    simp only [padding, List.map_cons, List.map_nil, List.cons_append, List.nil_append]
    rw [decodeQuanta]
    · rw [hvalues]
      exact hbytes
    · intro heq
      exact absurd heq hne
  | case4 a b c rest ih =>
    have hlt := @sextets_lt [a, b, c]
    have hvalues := mapM_value_digit hlt
    have hbytes := @decodeValues_sextets [a, b, c]
    have hne := (plain_digit (hlt _ (by simp [sextets] : c.toNat % 64 ∈ sextets [a, b, c]))).2.2.1
    simp only [sextets, List.map_cons, List.map_nil] at hvalues hbytes
    simp only [padding, List.map_cons, List.cons_append]
    rw [decodeQuanta]
    · rw [hvalues]
      dsimp only [Option.bind_eq_bind, Option.bind_some]
      rw [hbytes, ih]
      rfl
    · intro _ heq
      exact absurd heq hne
    · intro heq
      exact absurd heq hne

/-- **Go reads back what either side has written.** -/
theorem decodeString_encode : decodeString (encodeToString bytes) = some bytes := by
  rw [decodeString, filter_encode, decodeQuanta_encode]
  · intro n hn
    obtain ⟨h, h', -⟩ := plain_digit hn
    simp [h, h']
  · decide

theorem stripPadding_append {cs pad : List Char} (hcs : '=' ∉ cs)
    (hpad : pad = [] ∨ pad = ['='] ∨ pad = ['=', '=']) (hlen : (cs.length + pad.length) % 4 = 0) :
    stripPadding (cs ++ pad) = cs := by
  have hlast : ¬['='] <:+ cs := fun h => hcs (h.subset (List.mem_singleton_self _))
  have hlast₂ : ¬['=', '='] <:+ cs := fun h => hcs (h.subset List.mem_cons_self)
  rw [stripPadding, if_neg (by simpa using hlen)]
  rcases hpad with rfl | rfl | rfl
  · rw [List.append_nil, if_neg hlast₂, if_neg hlast]
  · have hone : ¬['=', '='] <:+ cs ++ ['='] := by
      intro h
      have h : ['='] ++ ['='] <:+ cs ++ ['='] := h
      exact hlast ((List.suffix_append_inj_of_length_eq rfl).1 h).1
    rw [if_neg hone, if_pos (List.suffix_append _ _), List.dropLast_concat]
  · have hcut : cs ++ ['=', '='] = cs ++ ['='] ++ ['='] := by simp
    rw [if_pos (List.suffix_append _ _), hcut, List.dropLast_concat, List.dropLast_concat]

theorem stripPadding_encode :
    stripPadding ((sextets bytes).map digit ++ padding bytes) = (sextets bytes).map digit := by
  refine stripPadding_append ?_ (padding_cases bytes) ?_
  · intro h
    obtain ⟨v, hv, heq⟩ := List.mem_map.1 h
    exact (plain_digit (sextets_lt v hv)).2.2.1 heq
  · rw [List.length_map]
    exact length_padded bytes

/-- **The browser reads back what either side has written.** -/
theorem atob_encode : atob (encodeToString bytes) = some bytes := by
  rw [atob, filter_encode, stripPadding_encode, mapM_value_digit sextets_lt]
  · exact decodeValues_sextets
  · intro n hn
    simp [(plain_digit hn).2.2.2]
  · decide

end PaddedBase64
