/-
  `net/netip` and the WHATWG IPv6 parser accept the same addresses, although one
  counts the fields left with the ellipsis unfilled and the other with it filled.
-/
import Piik.Protocol.NetUrl
import Piik.Protocol.Whatwg

namespace Piik

open Text

/-! ## Embedded IPv4 addresses -/

theorem radixDigit_of_isDigit {c : Char} (h : c.isDigit = true) : radixDigit c < 10 := by
  simp only [Char.isDigit, Bool.and_eq_true, decide_eq_true_eq, ge_iff_le] at h
  have h₁ : 48 ≤ c.toNat := h.1
  have h₂ : c.toNat ≤ 57 := h.2
  rw [radixDigit, if_pos ⟨h.1, h.2⟩]
  show c.toNat - 48 < 10
  omega

theorem ipv4Piece_of_not_isDigit {c : Char} (h : ¬ c.isDigit = true) {piece : Option ℕ}
    {rest : List Char} : Whatwg.ipv4Piece piece (c :: rest) = some (c :: rest) := by
  rcases piece with _ | _ | _
  all_goals simp [Whatwg.ipv4Piece, h]

/-- In the middle of a field: the digits go on, or a dot and the next field follow. -/
theorem parseIPv4Fields_eq : ∀ (s : List Char) (pos val digLen : ℕ), pos ≤ 3 → 0 < digLen →
    (val = 0 → digLen = 1) → NetUrl.parseIPv4Fields pos val digLen s =
      (Whatwg.ipv4Piece (some val) s).any (Whatwg.ipv4Rest (3 - pos))
  | [], pos, val, digLen, hpos, hlen, hzero => by
    by_cases h : pos = 3
    · simp [NetUrl.parseIPv4Fields, Whatwg.ipv4Piece, Whatwg.ipv4Rest, h]
    · have h₁ : pos < 3 := by omega
      have h₂ : ¬ 3 - pos = 0 := by omega
      simp [NetUrl.parseIPv4Fields, Whatwg.ipv4Piece, Whatwg.ipv4Rest, h₁, h₂]
  | c :: rest, pos, val, digLen, hpos, hlen, hzero => by
    by_cases hdigit : c.isDigit = true
    · cases val with
      | zero =>
        obtain rfl := hzero rfl
        simp [NetUrl.parseIPv4Fields, Whatwg.ipv4Piece, hdigit]
      | succ val =>
        simp only [NetUrl.parseIPv4Fields, Whatwg.ipv4Piece, hdigit, if_true]
        rw [if_neg (by simp)]
        split
        · rfl
        · exact parseIPv4Fields_eq rest pos _ _ hpos (by omega) (by omega)
    · rw [NetUrl.parseIPv4Fields, if_neg hdigit, ipv4Piece_of_not_isDigit hdigit, Option.any_some]
      by_cases hdot : c = '.'
      · subst hdot
        cases rest with
        | nil =>
          rcases Nat.eq_or_lt_of_le hpos with rfl | hlt
          · simp [Whatwg.ipv4Rest]
          · obtain ⟨left, hleft⟩ : ∃ left, 3 - pos = left + 1 := ⟨2 - pos, by omega⟩
            simp [hleft, Whatwg.ipv4Rest, Whatwg.ipv4Number]
        | cons d rest =>
          rcases Nat.eq_or_lt_of_le hpos with rfl | hlt
          · simp [Whatwg.ipv4Rest]
          · obtain ⟨left, hleft⟩ : ∃ left, 3 - pos = left + 1 := ⟨2 - pos, by omega⟩
            have hnext : 3 - (pos + 1) = left := by omega
            rw [if_pos rfl, if_neg (by simp; omega), if_neg (by omega), hleft]
            simp only [Whatwg.ipv4Rest, decide_true, Bool.true_and, Whatwg.ipv4Number,
              List.head?_cons, Option.any_some]
            by_cases hd : d.isDigit = true
            · have hval := radixDigit_of_isDigit hd
              simp only [NetUrl.parseIPv4Fields, Whatwg.ipv4Piece, hd, if_true]
              rw [if_neg (by simp), if_neg (by omega), parseIPv4Fields_eq rest _ _ _ (by omega)
                (by omega) (by omega), hnext]
              simp
            · rw [NetUrl.parseIPv4Fields, if_neg hd]
              simp [hd]
      · cases hleft : 3 - pos with
        | zero => simp [hdot, Whatwg.ipv4Rest]
        | succ left => simp [hdot, Whatwg.ipv4Rest]

theorem parseIPv4Fields_start (s : List Char) :
    NetUrl.parseIPv4Fields 0 0 0 s = Whatwg.embeddedIPv4 s := by
  cases s with
  | nil => rfl
  | cons d rest =>
    by_cases hd : d.isDigit = true
    · have hval := radixDigit_of_isDigit hd
      simp only [NetUrl.parseIPv4Fields, Whatwg.embeddedIPv4, Whatwg.ipv4Number, Whatwg.ipv4Piece,
        List.head?_cons, Option.any_some, hd, if_true]
      rw [if_neg (by simp), if_neg (by omega), parseIPv4Fields_eq rest _ _ _ (by omega)
        (by omega) (by omega)]
      simp
    · simp [NetUrl.parseIPv4Fields, Whatwg.embeddedIPv4, Whatwg.ipv4Number, hd]

/-! ## Fields and pieces -/

theorem isHexDigit_separator : isHexDigit ':' = false ∧ isHexDigit '.' = false := by decide

theorem drop_takeWhile {p : Char → Bool} {s : List Char} :
    s.drop (s.takeWhile p).length = s.dropWhile p := by
  induction s with
  | nil => rfl
  | cons c rest ih =>
    by_cases h : p c = true
    · simp [h, ih]
    · simp [h]

/-- A piece that begins with no colon: up to four hexadecimal digits, and what follows them. -/
theorem ipv6Pieces_digits {c : Char} (hc : c ≠ ':') (compress : Bool) (left : ℕ) (rest : List Char) :
    Whatwg.ipv6Pieces compress (left + 1) (c :: rest) =
      if ((c :: rest).takeWhile isHexDigit).length > 4 || ((c :: rest).takeWhile isHexDigit).isEmpty
      then false
      else match (c :: rest).dropWhile isHexDigit with
        | [] => compress || left = 0
        | '.' :: _ => !(left + 1 < 2) &&
            (Whatwg.embeddedIPv4 (c :: rest) && (compress || left + 1 = 2))
        | ':' :: after => !after.isEmpty && Whatwg.ipv6Pieces compress left after
        | _ => false := by
  rw [Whatwg.ipv6Pieces, if_neg hc]
  have hsplit := List.takeWhile_append_dropWhile (p := isHexDigit) (l := c :: rest)
  have hdrop := drop_takeWhile (p := isHexDigit) (s := c :: rest)
  have hhex := List.all_takeWhile (p := isHexDigit) (l := c :: rest)
  have hhead : (c :: rest).takeWhile isHexDigit = [] → isHexDigit c = false := by
    intro h
    by_contra hne
    simp [hne] at h
  have hdropped : (c :: rest).takeWhile isHexDigit = [] → (c :: rest).dropWhile isHexDigit = c :: rest := by
    intro h
    rw [h] at hsplit
    exact hsplit
  generalize (c :: rest).takeWhile isHexDigit = digits at *
  generalize (c :: rest).dropWhile isHexDigit = after at *
  by_cases hlong : digits.length > 4
  · refine Eq.trans ?_ (if_pos (by simp [hlong])).symm
    obtain ⟨d, tail, htail⟩ : ∃ d tail, digits.drop 4 = d :: tail :=
      List.exists_cons_of_length_pos (by simp; omega)
    have hd : isHexDigit d = true := by
      refine List.all_eq_true.1 hhex d (List.mem_of_mem_drop (i := 4) ?_)
      rw [htail]
      exact List.mem_cons_self ..
    have hrest : (c :: rest).drop (digits.take 4).length = d :: (tail ++ after) := by
      rw [← hsplit, List.length_take, Nat.min_eq_left hlong.le, List.drop_append_of_le_length hlong.le,
        htail]
      rfl
    simp only [hrest]
    split
    · next heq => cases heq
    · next heq =>
      cases heq
      cases hd
    · next heq =>
      cases heq
      cases hd
    · rfl
  · have htake : digits.take 4 = digits := List.take_of_length_le (by omega)
    simp only [htake, hdrop]
    by_cases hempty : digits = []
    · refine Eq.trans ?_ (if_pos (by simp [hempty])).symm
      rw [hdropped hempty]
      split
      · next heq => cases heq
      · simp [hempty]
      · next heq => exact absurd (List.cons.inj heq).1 hc
      · rfl
    · have hne : digits.isEmpty = false := by simp [hempty]
      refine Eq.trans ?_ (if_neg (by simp [hlong, hempty])).symm
      rcases after with _ | ⟨a, after⟩
      · simp [Whatwg.ipv6Pieces]
      · by_cases hdot : a = '.'
        · by_cases hleft : left + 1 < 2
          · simp [hdot, hne, hleft]
          · simp [hdot, hne, hleft]
        · by_cases hcolon : a = ':'
          · cases after with
            | nil => simp [hcolon]
            | cons => simp [hcolon]
          · simp [hdot, hcolon]

/-- With no field left that the ellipsis could stand for, nothing is accepted. -/
theorem parseIPv6Fields_one (s : List Char) : NetUrl.parseIPv6Fields true 1 s = false := by
  rw [NetUrl.parseIPv6Fields]
  split
  · rfl
  · split
    · rfl
    · rfl
    · rfl
    · rfl
    · simp [NetUrl.parseIPv6Fields, NetUrl.filled]
    · rfl

/-- After the ellipsis: one side has a field more left, which the other has filled. -/
theorem parseIPv6Fields_ellipsis : ∀ (left : ℕ) (c : Char) (rest : List Char),
    NetUrl.parseIPv6Fields true (left + 1) (c :: rest) = Whatwg.ipv6Pieces true left (c :: rest)
  | 0, c, rest => by rw [parseIPv6Fields_one, Whatwg.ipv6Pieces]
  | left + 1, c, rest => by
    by_cases hc : c = ':'
    · simp [hc, NetUrl.parseIPv6Fields, Whatwg.ipv6Pieces, isHexDigit_separator]
    · rw [NetUrl.parseIPv6Fields, ipv6Pieces_digits hc]
      refine if_congr Iff.rfl rfl ?_
      rcases (c :: rest).dropWhile isHexDigit with _ | ⟨a, after⟩
      · simp [NetUrl.filled]
      · by_cases hdot : a = '.'
        · subst hdot
          cases left with
          | zero => simp [NetUrl.filled]
          | succ left => simp [NetUrl.filled, parseIPv4Fields_start]
        · by_cases hcolon : a = ':'
          · subst hcolon
            rcases after with _ | ⟨b, after⟩
            · simp
            · by_cases hb : b = ':'
              · cases left with
                | zero => simp [hb, Whatwg.ipv6Pieces]
                | succ left => simp [hb, Whatwg.ipv6Pieces]
              · simp [hb, parseIPv6Fields_ellipsis left b after]
          · simp [hdot, hcolon]

/-- Before any ellipsis, at the beginning of a field. -/
theorem parseIPv6Fields_eq : ∀ (left : ℕ) {c : Char} (rest : List Char), c ≠ ':' →
    NetUrl.parseIPv6Fields false left (c :: rest) = Whatwg.ipv6Pieces false left (c :: rest)
  | 0, c, rest, _ => by simp [NetUrl.parseIPv6Fields, Whatwg.ipv6Pieces]
  | left + 1, c, rest, hc => by
    rw [NetUrl.parseIPv6Fields, ipv6Pieces_digits hc]
    refine if_congr Iff.rfl rfl ?_
    rcases (c :: rest).dropWhile isHexDigit with _ | ⟨a, after⟩
    · cases left with
      | zero => simp [NetUrl.filled]
      | succ left => simp [NetUrl.filled]
    · by_cases hdot : a = '.'
      · subst hdot
        by_cases hleft : left = 1
        · simp [hleft, NetUrl.filled, parseIPv4Fields_start]
        · simp [hleft]
      · by_cases hcolon : a = ':'
        · subst hcolon
          rcases after with _ | ⟨b, after⟩
          · simp
          · by_cases hb : b = ':'
            · subst hb
              cases left with
              | zero =>
                cases after with
                | nil => simp [NetUrl.filled, Whatwg.ipv6Pieces]
                | cons d after => simp [NetUrl.parseIPv6Fields, Whatwg.ipv6Pieces]
              | succ left =>
                cases after with
                | nil => simp [NetUrl.filled, Whatwg.ipv6Pieces]
                | cons d after => simp [Whatwg.ipv6Pieces, parseIPv6Fields_ellipsis left d after]
            · simp [hb, parseIPv6Fields_eq left after hb]
        · simp [hdot, hcolon]

theorem find?_separator {digits after : List Char} (h : digits.all isHexDigit = true) :
    (digits ++ ':' :: after).find? (fun c => c = '.' || c = ':' || c = '%') = some ':' := by
  rw [List.find?_append, List.find?_eq_none.2, Option.none_or]
  · rfl
  · intro d hd
    have hhex := List.all_eq_true.1 h d hd
    rintro hsep
    simp only [Bool.or_eq_true, decide_eq_true_eq] at hsep
    rcases hsep with (rfl | rfl) | rfl
    · cases hhex
    · cases hhex
    · cases hhex

/-- An address without a leading colon has one after its first field. -/
theorem find?_of_ipv6Pieces {c : Char} (hc : c ≠ ':') {rest : List Char}
    (h : Whatwg.ipv6Pieces false 8 (c :: rest) = true) :
    (c :: rest).find? (fun c => c = '.' || c = ':' || c = '%') = some ':' := by
  rw [ipv6Pieces_digits hc] at h
  have hsplit := List.takeWhile_append_dropWhile (p := isHexDigit) (l := c :: rest)
  split at h
  · cases h
  · split at h
    · cases h
    · simp at h
    · next heq =>
      rw [← hsplit, heq]
      exact find?_separator List.all_takeWhile
    · cases h

/-- `netip.ParseAddr` and the WHATWG IPv6 parser accept the same texts. -/
theorem isIPv6_eq (s : List Char) : NetUrl.isIPv6 s = Whatwg.parseIPv6 s := by
  rcases s with _ | ⟨c, rest⟩
  · rfl
  by_cases hc : c = ':'
  · subst hc
    have hfind : (':' :: rest).find? (fun c => c = '.' || c = ':' || c = '%') = some ':' := rfl
    simp only [NetUrl.isIPv6, hfind]
    rcases rest with _ | ⟨d, rest⟩
    · rfl
    by_cases hd : d = ':'
    · subst hd
      cases rest with
      | nil => rfl
      | cons e rest => exact parseIPv6Fields_ellipsis 7 e rest
    · have hgo : NetUrl.parseIPv6 (':' :: d :: rest) = false := by
        simp [NetUrl.parseIPv6, hd, NetUrl.parseIPv6Fields, isHexDigit_separator]
      have hjs : Whatwg.parseIPv6 (':' :: d :: rest) = false := by simp [Whatwg.parseIPv6, hd]
      rw [hgo, hjs]
  · have hgo : NetUrl.parseIPv6 (c :: rest) = Whatwg.ipv6Pieces false 8 (c :: rest) := by
      rw [← parseIPv6Fields_eq 8 rest hc]
      simp [NetUrl.parseIPv6, hc]
    have hjs : Whatwg.parseIPv6 (c :: rest) = Whatwg.ipv6Pieces false 8 (c :: rest) := by
      simp [Whatwg.parseIPv6, hc]
    rw [hjs]
    cases hpieces : Whatwg.ipv6Pieces false 8 (c :: rest) with
    | true =>
      rw [NetUrl.isIPv6, find?_of_ipv6Pieces hc hpieces]
      exact hgo.trans hpieces
    | false =>
      rw [NetUrl.isIPv6]
      split
      · exact hgo.trans hpieces
      · rfl

/-! ## The characters of an address -/

/-- What an IPv6 address is written with. -/
def isAddressCharacter (c : Char) : Bool := isHexDigit c || c = ':' || c = '.'

theorem isHexDigit_of_isDigit {c : Char} (h : c.isDigit = true) : isHexDigit c = true :=
  decide_eq_true ((radixDigit_of_isDigit h).trans (by decide))

theorem parseIPv4Fields_characters : ∀ {s : List Char} {pos val digLen : ℕ},
    NetUrl.parseIPv4Fields pos val digLen s = true → s.all isAddressCharacter = true
  | [], _, _, _, _ => rfl
  | c :: rest, pos, val, digLen, h => by
    rw [List.all_cons, Bool.and_eq_true]
    rw [NetUrl.parseIPv4Fields] at h
    split at h
    · next hdigit =>
      have hrest : rest.all isAddressCharacter = true := by
        split at h
        · cases h
        · split at h
          · cases h
          · exact parseIPv4Fields_characters h
      exact ⟨by simp [isAddressCharacter, isHexDigit_of_isDigit hdigit], hrest⟩
    · split at h
      · next hdot =>
        have hrest : rest.all isAddressCharacter = true := by
          split at h
          · cases h
          · split at h
            · cases h
            · exact parseIPv4Fields_characters h
        exact ⟨by simp [isAddressCharacter, hdot], hrest⟩
      · cases h

theorem ipv6Pieces_characters : ∀ {left : ℕ} {compress : Bool} {s : List Char},
    Whatwg.ipv6Pieces compress left s = true → s.all isAddressCharacter = true
  | _, _, [], _ => rfl
  | 0, _, _ :: _, h => by cases h
  | left + 1, compress, c :: rest, h => by
    by_cases hc : c = ':'
    · subst hc
      rw [Whatwg.ipv6Pieces, if_pos rfl] at h
      split at h
      · cases h
      · rw [List.all_cons, ipv6Pieces_characters h]
        rfl
    · rw [ipv6Pieces_digits hc] at h
      have hsplit := List.takeWhile_append_dropWhile (p := isHexDigit) (l := c :: rest)
      have hdigits : ((c :: rest).takeWhile isHexDigit).all isAddressCharacter = true := by
        refine List.all_eq_true.2 fun d hd => ?_
        simp [isAddressCharacter, List.all_eq_true.1 List.all_takeWhile d hd]
      split at h
      · cases h
      · split at h
        · next heq =>
          rw [heq, List.append_nil] at hsplit
          exact hsplit ▸ hdigits
        · rw [Bool.and_eq_true, Bool.and_eq_true, ← parseIPv4Fields_start] at h
          exact parseIPv4Fields_characters h.2.1
        · next heq =>
          rw [Bool.and_eq_true] at h
          rw [← hsplit, heq, List.all_append, hdigits, List.all_cons, ipv6Pieces_characters h.2]
          rfl
        · cases h

/-- No bracket, at sign or slash stands in an address. -/
theorem parseIPv6_characters {s : List Char} (h : Whatwg.parseIPv6 s = true) :
    s.all isAddressCharacter = true := by
  unfold Whatwg.parseIPv6 at h
  split at h
  · rw [List.all_cons, List.all_cons, ipv6Pieces_characters h]
    rfl
  · cases h
  · exact ipv6Pieces_characters h

end Piik
