/-
  `ValidStunURL` against `isValidStunUrl`: on authorities in printable ASCII the
  two agree exactly where the host does not slip.
-/
import Piik.Protocol.Endpoint

namespace Piik.Protocol

open Text

variable (uts46 : List Char → Option (List Char))

/-! ## User information -/

/-- The text before the last at sign, if there is one. -/
def userinfoOf (authority : List Char) : Option (List Char) := (cutLast '@' authority).map Prod.fst

/-- The text after the last at sign. -/
def hostPortOf (authority : List Char) : List Char :=
  ((cutLast '@' authority).map Prod.snd).getD authority

/-- No user information, or an empty username and password. -/
def userinfoOk (userinfo : Option (List Char)) : Bool := userinfo.all fun u => u = [] || u = [':']

theorem parseUserinfo_empty (u : List Char) : ((NetUrl.parseUserinfo u).1.isEmpty &&
    (NetUrl.parseUserinfo u).2.isEmpty) = (u = [] || u = [':'] : Bool) := by
  unfold NetUrl.parseUserinfo
  cases hcut : cut ':' u with
  | none =>
    have hmem := cut_eq_none.1 hcut
    have hne : u ≠ [':'] := by
      rintro rfl
      exact hmem (List.mem_singleton_self _)
    cases u with
    | nil => rfl
    | cons c u => simp [hne]
  | some p =>
    obtain ⟨before, after⟩ := p
    obtain ⟨rfl, -⟩ := cut_eq_some.1 hcut
    cases before with
    | nil => cases after <;> simp
    | cons c before => simp

theorem validUserinfo_ok {u : List Char} (h : userinfoOk (some u) = true) :
    NetUrl.validUserinfo u = true := by
  rw [userinfoOk, Option.all_some, Bool.or_eq_true, decide_eq_true_eq, decide_eq_true_eq] at h
  rcases h with rfl | rfl
  · rfl
  · rfl

/-- `net/url` and the checks on its result want empty user information. -/
theorem validAuthority_eq (authority : List Char) : validAuthority authority =
    (userinfoOk (userinfoOf authority) && validHostPort (hostPortOf authority)) := by
  rw [validAuthority, NetUrl.parseAuthority, userinfoOf, hostPortOf, validHostPort]
  cases cutLast '@' authority with
  | none => cases hhost : NetUrl.parseHost authority <;> simp [hhost, userinfoOk]
  | some p =>
    obtain ⟨u, h⟩ := p
    cases hhost : NetUrl.parseHost h with
    | none => simp [hhost]
    | some host =>
      by_cases hok : userinfoOk (some u) = true
      · have hempty := (parseUserinfo_empty u).trans hok
        rw [Bool.and_eq_true] at hempty
        simp [hhost, hok, validUserinfo_ok hok, hempty.1, hempty.2]
      · have hempty := (parseUserinfo_empty u).trans (eq_false_of_ne_true hok)
        rw [Bool.and_eq_false_iff] at hempty
        cases hvalid : NetUrl.validUserinfo u with
        | false => simp [hhost, hok, hvalid]
        | true =>
          rcases hempty with hempty | hempty
          · simp [hhost, hok, hvalid, hempty]
          · simp [hhost, hok, hvalid, hempty]

/-! ## The authority state -/

theorem addCredentials_extends : ∀ (buffer un pw : List Char) (seen : Bool),
    un <+: (Whatwg.addCredentials un pw seen buffer).1 ∧
      pw <+: (Whatwg.addCredentials un pw seen buffer).2.1
  | [], un, pw, _ => ⟨List.prefix_rfl, List.prefix_rfl⟩
  | c :: rest, un, pw, seen => by
    unfold Whatwg.addCredentials
    split
    · exact addCredentials_extends rest un pw true
    · dsimp only
      split
      · have ih := addCredentials_extends rest un
          (pw ++ if Whatwg.userinfoPercentEncodeSet c then Whatwg.percentEncode c else [c]) true
        exact ⟨ih.1, (List.prefix_append _ _).trans ih.2⟩
      · have ih := addCredentials_extends rest
          (un ++ if Whatwg.userinfoPercentEncodeSet c then Whatwg.percentEncode c else [c]) pw false
        exact ⟨(List.prefix_append _ _).trans ih.1, ih.2⟩

theorem ne_nil_of_extends {α : Type} {l₁ l₂ : List α} (h : l₁ <+: l₂) (hne : l₁ ≠ []) : l₂ ≠ [] := by
  rintro rfl
  exact hne (List.prefix_nil.1 h)

/-- A character other than the colon before the password stays in the credentials. -/
theorem addCredentials_cons {c : Char} {seen : Bool} (hc : c = ':' → seen = true)
    (rest un pw : List Char) : (Whatwg.addCredentials un pw seen (c :: rest)).1 ≠ [] ∨
      (Whatwg.addCredentials un pw seen (c :: rest)).2.1 ≠ [] := by
  have hencoded : (if Whatwg.userinfoPercentEncodeSet c then Whatwg.percentEncode c else [c]) ≠ [] := by
    split
    · exact List.cons_ne_nil _ _
    · exact List.cons_ne_nil _ _
  have hcolon : (decide (c = ':') && !seen) = false := by
    rw [Bool.and_eq_false_iff, decide_eq_false_iff_not, Bool.not_eq_false']
    exact or_iff_not_imp_left.2 fun h => hc (not_not.1 h)
  rw [Whatwg.addCredentials, hcolon]
  cases seen with
  | true =>
    refine .inr (ne_nil_of_extends (addCredentials_extends rest _ _ true).2 ?_)
    exact List.append_ne_nil_of_right_ne_nil _ hencoded
  | false =>
    refine .inl (ne_nil_of_extends (addCredentials_extends rest _ _ false).1 ?_)
    exact List.append_ne_nil_of_right_ne_nil _ hencoded

theorem addCredentials_empty (u : List Char) :
    ((Whatwg.addCredentials [] [] false u).1.isEmpty &&
      (Whatwg.addCredentials [] [] false u).2.1.isEmpty) = (u = [] || u = [':'] : Bool) := by
  have hkept {un pw : List Char} (h : un ≠ [] ∨ pw ≠ []) : (un.isEmpty && pw.isEmpty) = false := by
    rcases h with h | h
    · simp [h]
    · simp [h]
  rcases u with _ | ⟨c, rest⟩
  · rfl
  by_cases hc : c = ':'
  · subst hc
    rcases rest with _ | ⟨d, rest⟩
    · rfl
    · exact hkept (addCredentials_cons (fun _ => rfl) rest [] [])
  · rw [hkept (addCredentials_cons (fun h => absurd h hc) rest [] [])]
    simp [hc]

/-- Without an at sign the authority state reads everything into the buffer. -/
theorem authorityState_plain : ∀ {s : List Char} (atSignSeen seen : Bool) (un pw buffer : List Char),
    '@' ∉ s → Whatwg.authorityState atSignSeen seen un pw buffer s =
      if atSignSeen && (buffer ++ s).isEmpty then none else some (un, pw, buffer ++ s)
  | [], _, _, _, _, _, _ => by rw [Whatwg.authorityState, List.append_nil]
  | c :: rest, atSignSeen, seen, un, pw, buffer, h => by
    rw [List.mem_cons, not_or] at h
    rw [Whatwg.authorityState, if_neg (Ne.symm h.1), authorityState_plain _ _ _ _ _ h.2,
      List.append_assoc, List.singleton_append]

/-- The authority state on a text whose last at sign stands before `h`: from the second at
    sign on, the escaped sign itself is part of the credentials. -/
theorem authorityState_at {h : List Char} (hh : '@' ∉ h) : ∀ (s : List Char)
    (atSignSeen seen : Bool) (un pw buffer : List Char), ∃ un' pw',
      Whatwg.authorityState atSignSeen seen un pw buffer (s ++ '@' :: h) =
        (if h.isEmpty then none else some (un', pw', h)) ∧ un <+: un' ∧ pw <+: pw' ∧
      (atSignSeen = true ∨ '@' ∈ s → un' ≠ [] ∨ pw' ≠ []) ∧
      (atSignSeen = false → '@' ∉ s →
        (un', pw') = ((Whatwg.addCredentials un pw seen (buffer ++ s)).1,
          (Whatwg.addCredentials un pw seen (buffer ++ s)).2.1))
  | [], atSignSeen, seen, un, pw, buffer => by
    have hextends := addCredentials_extends
      (if atSignSeen then "%40".toList ++ buffer else buffer) un pw seen
    refine ⟨_, _, ?_, hextends.1, hextends.2, ?_, ?_⟩
    · rw [List.nil_append, Whatwg.authorityState, if_pos rfl]
      exact authorityState_plain _ _ _ _ _ hh
    · rintro (rfl | hmem)
      · exact addCredentials_cons (c := '%') (fun h => absurd h (by decide)) _ _ _
      · exact absurd hmem List.not_mem_nil
    · rintro rfl -
      rw [List.append_nil]
      rfl
  | c :: s, atSignSeen, seen, un, pw, buffer => by
    by_cases hc : c = '@'
    · subst hc
      have hextends := addCredentials_extends
        (if atSignSeen then "%40".toList ++ buffer else buffer) un pw seen
      obtain ⟨un', pw', hstate, hun, hpw, hkept, -⟩ := authorityState_at hh s true
        (Whatwg.addCredentials un pw seen (if atSignSeen then "%40".toList ++ buffer else buffer)).2.2
        (Whatwg.addCredentials un pw seen (if atSignSeen then "%40".toList ++ buffer else buffer)).1
        (Whatwg.addCredentials un pw seen (if atSignSeen then "%40".toList ++ buffer else buffer)).2.1
        []
      refine ⟨un', pw', ?_, hextends.1.trans hun, hextends.2.trans hpw, fun _ => hkept (.inl rfl),
        fun _ hmem => absurd (List.mem_cons_self ..) hmem⟩
      rw [List.cons_append, Whatwg.authorityState, if_pos rfl]
      exact hstate
    · obtain ⟨un', pw', hstate, hun, hpw, hkept, hfirst⟩ :=
        authorityState_at hh s atSignSeen seen un pw (buffer ++ [c])
      refine ⟨un', pw', ?_, hun, hpw, ?_, ?_⟩
      · rw [List.cons_append, Whatwg.authorityState, if_neg hc]
        exact hstate
      · rintro (hseen | hmem)
        · exact hkept (.inl hseen)
        · exact hkept (.inr ((List.mem_cons.1 hmem).resolve_left (Ne.symm hc)))
      · intro hseen hmem
        rw [hfirst hseen fun h => hmem (List.mem_cons_of_mem _ h), List.append_assoc,
          List.singleton_append]

theorem isValidAuthority_state (authority : List Char) : isValidAuthority uts46 authority =
    (Whatwg.authorityState false false [] [] [] authority).any fun p =>
      p.1.isEmpty && p.2.1.isEmpty && isValidHostPort uts46 p.2.2 := by
  rw [isValidAuthority, Whatwg.parse]
  cases Whatwg.authorityState false false [] [] [] authority with
  | none => rfl
  | some p =>
    obtain ⟨un, pw, hostAndPort⟩ := p
    cases hstate : Whatwg.hostState false [] hostAndPort with
    | none => simp [isValidHostPort, hstate]
    | some q =>
      obtain ⟨hostText, portText⟩ := q
      cases hhost : Whatwg.parseHost uts46 hostText with
      | none => simp [isValidHostPort, hstate, hhost]
      | some host =>
        cases hport : Whatwg.portState [] portText with
        | none => simp [isValidHostPort, hstate, hhost, hport]
        | some port =>
          simp only [isValidHostPort, hstate, hhost, hport, Option.bind_eq_bind, Option.bind_some,
            Option.any_some]
          cases un.isEmpty <;> cases pw.isEmpty <;> cases host.isEmpty <;> simp

theorem isValidHostPort_nil : isValidHostPort uts46 [] = false := rfl

/-- The WHATWG parser and the checks on its result want empty user information. -/
theorem isValidAuthority_eq (authority : List Char) : isValidAuthority uts46 authority =
    (userinfoOk (userinfoOf authority) && isValidHostPort uts46 (hostPortOf authority)) := by
  rw [isValidAuthority_state, userinfoOf, hostPortOf]
  cases hcut : cutLast '@' authority with
  | none =>
    rw [authorityState_plain _ _ _ _ _ (cutLast_eq_none.1 hcut)]
    simp [userinfoOk]
  | some p =>
    obtain ⟨u, h⟩ := p
    obtain ⟨rfl, hmem⟩ := cutLast_eq_some.1 hcut
    obtain ⟨un, pw, hstate, -, -, hkept, hfirst⟩ := authorityState_at hmem u false false [] [] []
    have hok : (un.isEmpty && pw.isEmpty) = userinfoOk (some u) := by
      by_cases hu : '@' ∈ u
      · have hnot : userinfoOk (some u) = false := by
          refine Bool.eq_false_iff.2 fun hok => ?_
          rw [userinfoOk, Option.all_some, Bool.or_eq_true, decide_eq_true_eq, decide_eq_true_eq] at hok
          rcases hok with rfl | rfl
          · exact List.not_mem_nil hu
          · exact absurd hu (by decide)
        rw [hnot, Bool.and_eq_false_iff]
        simpa using hkept (.inr hu)
      · obtain ⟨rfl, rfl⟩ := Prod.mk.inj (hfirst rfl hu)
        exact addCredentials_empty u
    rw [hstate]
    cases h with
    | nil => simp [isValidHostPort_nil]
    | cons c h => simp [hok]

/-! ## Schemes -/

theorem asciiLower_eq (c : Char) : asciiLower c = c.toLower := by
  by_cases hc : 'A' ≤ c ∧ c ≤ 'Z'
  · exact upper_forall (P := fun c => asciiLower c = c.toLower) (by decide) hc
  · rw [toLower_eq_self hc, asciiLower, if_neg hc]

theorem asciiEqualFold_stun (scheme : List Char) :
    asciiEqualFold scheme "stun".toList = decide (scheme.map Char.toLower = "stun".toList) := by
  have hlower : scheme.map asciiLower = scheme.map Char.toLower :=
    List.map_congr_left fun c _ => asciiLower_eq c
  have hstun : "stun".toList.map asciiLower = "stun".toList := by decide
  rw [asciiEqualFold, hlower, hstun]

/-- An authority text that holds nothing a path, a query, a fragment or a dangling port
    begins with. -/
def isFramed (authority : List Char) : Bool :=
  !authority.isEmpty && !decide (authority.getLast? = some ':') &&
    !authority.any fun c => c = '\\' || c = '/' || c = '?' || c = '#' || isJSWhitespace c

theorem validStunURL_eq {value : String} {scheme authority : List Char}
    (h : cut ':' value.toList = some (scheme, authority)) : validStunURL value =
      (asciiEqualFold scheme "stun".toList && (isFramed authority && validAuthority authority)) := by
  have hscheme : (scheme.isEmpty || !asciiEqualFold scheme "stun".toList) =
      !asciiEqualFold scheme "stun".toList := by
    cases scheme with
    | nil => rfl
    | cons => rfl
  rw [validStunURL, h, isFramed]
  simp only [hscheme]
  generalize asciiEqualFold scheme "stun".toList = fold
  generalize authority.isEmpty = empty
  generalize decide (authority.getLast? = some ':') = dangling
  generalize (authority.any fun c => c = '\\' || c = '/' || c = '?' || c = '#' ||
    isJSWhitespace c) = framing
  cases fold <;> cases empty <;> cases dangling <;> cases framing <;> rfl

theorem isValidStunUrl_eq {value : String} {scheme authority : List Char}
    (h : cut ':' value.toList = some (scheme, authority)) : isValidStunUrl uts46 value =
      (asciiEqualFold scheme "stun".toList &&
        (isFramed authority && isValidAuthority uts46 authority)) := by
  have hscheme : (scheme.isEmpty || decide (scheme.map Char.toLower ≠ "stun".toList)) =
      !asciiEqualFold scheme "stun".toList := by
    rw [asciiEqualFold_stun, decide_not]
    cases scheme with
    | nil => rfl
    | cons => rfl
  rw [isValidStunUrl, h, isFramed]
  simp only [hscheme]
  generalize asciiEqualFold scheme "stun".toList = fold
  generalize authority.isEmpty = empty
  generalize decide (authority.getLast? = some ':') = dangling
  generalize (authority.any fun c => c = '\\' || c = '/' || c = '?' || c = '#' ||
    isJSWhitespace c) = framing
  cases fold <;> cases empty <;> cases dangling <;> cases framing <;> rfl

/-! ## Agreement -/

/-- The authority is printable ASCII without percent signs and without `xn--` labels. -/
def Plain (value : String) : Prop :=
  ∀ scheme authority, cut ':' value.toList = some (scheme, authority) →
    (∀ c ∈ authority, Printable c ∧ c ≠ '%') ∧
      Whatwg.hasPunycodeLabel true (hostPortOf authority) = false

/-- The two sides part: the URL is well formed but for its host, which stands outside
    brackets, holds no forbidden code point and slips. -/
def StunSlips (value : String) : Prop :=
  ∃ scheme authority, cut ':' value.toList = some (scheme, authority) ∧
    asciiEqualFold scheme "stun".toList = true ∧ isFramed authority = true ∧
    userinfoOk (userinfoOf authority) = true ∧ (hostPortOf authority).head? ≠ some '[' ∧
    (hostPortOf authority).takeWhile (· ≠ ':') ≠ [] ∧
    portOk ((hostPortOf authority).dropWhile (· ≠ ':')) = true ∧
    ((hostPortOf authority).takeWhile (· ≠ ':')).any Whatwg.isForbiddenDomainCodePoint = false ∧
    Slips ((hostPortOf authority).takeWhile (· ≠ ':'))

theorem hostPortOf_suffix (authority : List Char) : hostPortOf authority <:+ authority := by
  rw [hostPortOf]
  cases hcut : cutLast '@' authority with
  | none => exact List.suffix_rfl
  | some p =>
    rw [(cutLast_eq_some.1 hcut).1, ← List.singleton_append, ← List.append_assoc]
    exact List.suffix_append _ _

theorem getLast?_hostPortOf {authority : List Char} (h : authority.getLast? ≠ some ':') :
    (hostPortOf authority).getLast? ≠ some ':' := by
  intro hlast
  obtain ⟨before, heq⟩ := hostPortOf_suffix authority
  rw [← heq, List.getLast?_append, hlast] at h
  exact h rfl

/-- Outside brackets the sides agree on a host and a port where they agree on the host. -/
theorem endpoint_iff {hostPort : List Char} (h : ∀ c ∈ hostPort, Printable c)
    (hpunycode : Whatwg.hasPunycodeLabel true hostPort = false) :
    endpoint validHostText hostPort = endpoint (isValidHostText uts46) hostPort ↔
      ¬ (hostPort.head? ≠ some '[' ∧ hostPort.takeWhile (· ≠ ':') ≠ [] ∧
        portOk (hostPort.dropWhile (· ≠ ':')) = true ∧
        (hostPort.takeWhile (· ≠ ':')).any Whatwg.isForbiddenDomainCodePoint = false ∧
        Slips (hostPort.takeWhile (· ≠ ':'))) := by
  by_cases hhead : hostPort.head? = some '['
  · obtain ⟨literal, rfl⟩ := List.head?_eq_some_iff.1 hhead
    rw [endpoint_literal, endpoint_literal]
    exact iff_of_true rfl fun hslip => hslip.1 hhead
  by_cases hhost : hostPort.takeWhile (· ≠ ':') = []
  · rw [endpoint, if_neg hhead, endpoint, if_neg hhead, hhost]
    exact iff_of_true rfl fun hslip => hslip.2.1 rfl
  have hlabel := hasPunycodeLabel_append (t := hostPort.dropWhile (· ≠ ':'))
    ((List.takeWhile_append_dropWhile (p := (· ≠ ':')) (l := hostPort)).symm ▸ hpunycode)
  have hempty : (hostPort.takeWhile (· ≠ ':')).isEmpty = false := by simpa using hhost
  rw [endpoint, if_neg hhead, endpoint, if_neg hhead, hempty]
  have hiff := validHostText_iff uts46 (printable_takeWhile h) hhost hlabel (head?_takeWhile_ne hhead)
  cases hport : portOk (hostPort.dropWhile (· ≠ ':')) with
  | false => simp
  | true =>
    rw [Bool.and_true, Bool.and_true, Bool.not_false, Bool.true_and, Bool.true_and, hiff]
    exact not_congr ⟨fun hslip => ⟨hhead, hhost, rfl, hslip⟩, fun hslip => hslip.2.2.2⟩

/-- On plain values the two sides agree unless the host slips. -/
theorem validStunURL_iff (value : String) (h : Plain value) :
    validStunURL value = isValidStunUrl uts46 value ↔ ¬ StunSlips value := by
  cases hcut : cut ':' value.toList with
  | none =>
    have hslip : ¬ StunSlips value := by
      rintro ⟨scheme, authority, hsome, -⟩
      rw [hcut] at hsome
      cases hsome
    rw [validStunURL, isValidStunUrl, hcut]
    exact iff_of_true rfl hslip
  | some p =>
    obtain ⟨scheme, authority⟩ := p
    obtain ⟨hprintable, hpunycode⟩ := h scheme authority hcut
    have hslips : StunSlips value ↔ asciiEqualFold scheme "stun".toList = true ∧
        isFramed authority = true ∧ userinfoOk (userinfoOf authority) = true ∧
        ¬ (endpoint validHostText (hostPortOf authority) =
          endpoint (isValidHostText uts46) (hostPortOf authority)) := by
      rw [endpoint_iff uts46 (fun c hc => (hprintable c ((hostPortOf_suffix authority).subset hc)).1)
        hpunycode, not_not]
      constructor
      · rintro ⟨scheme', authority', hsome, hslip⟩
        rw [hcut] at hsome
        obtain ⟨rfl, rfl⟩ := Prod.mk.inj (Option.some.inj hsome)
        exact hslip
      · exact fun hslip => ⟨scheme, authority, hcut, hslip⟩
    rw [validStunURL_eq hcut, isValidStunUrl_eq uts46 hcut, hslips]
    cases hscheme : asciiEqualFold scheme "stun".toList with
    | false => simp
    | true =>
      cases hframed : isFramed authority with
      | false => simp
      | true =>
        rw [validAuthority_eq, isValidAuthority_eq]
        cases huser : userinfoOk (userinfoOf authority) with
        | false => simp
        | true =>
          have hlast : authority.getLast? ≠ some ':' := by
            rw [isFramed, Bool.and_eq_true, Bool.and_eq_true] at hframed
            simpa using hframed.1.2
          have hall : ∀ c ∈ hostPortOf authority, Printable c :=
            fun c hc => (hprintable c ((hostPortOf_suffix authority).subset hc)).1
          rw [validHostPort_eq hall (getLast?_hostPortOf hlast),
            isValidHostPort_eq uts46 hall hpunycode (getLast?_hostPortOf hlast)]
          simp

/-- A hexadecimal number of seventeen digits. -/
theorem plain_overlong : Plain "stun:0x10000000000000000" := by
  intro scheme authority h
  have hcut : cut ':' "stun:0x10000000000000000".toList =
      some ("stun".toList, "0x10000000000000000".toList) := by decide
  rw [hcut] at h
  have hprintable : ("0x10000000000000000".toList.all fun c => Printable c && c ≠ '%') = true := by
    decide
  obtain ⟨rfl, rfl⟩ := Prod.mk.inj (Option.some.inj h)
  refine ⟨fun c hc => ?_, by decide⟩
  simpa using List.all_eq_true.1 hprintable c hc

theorem validStunURL_iff_overlong :
    validStunURL "stun:0x10000000000000000" =
        isValidStunUrl (fun _ => none) "stun:0x10000000000000000" ↔
      ¬ StunSlips "stun:0x10000000000000000" :=
  validStunURL_iff (fun _ => none) "stun:0x10000000000000000" plain_overlong

/-- The number does not fit 64 bits, and its host passes for a domain name. -/
theorem validStunURL_overlong : ¬ ∀ (uts46 : List Char → Option (List Char)) (value : String),
    Plain value → validStunURL value = isValidStunUrl uts46 value := by
  intro h
  have hgo : validStunURL "stun:0x10000000000000000" = true := by decide
  have hjs : isValidStunUrl (fun _ => none) "stun:0x10000000000000000" = false := by decide
  have heq := h (fun _ => none) _ plain_overlong
  rw [hgo, hjs] at heq
  cases heq

-- A brace is refused by `net/url` only.
example : validStunURL "stun:a\x7bb" = false ∧
    isValidStunUrl (fun _ => none) "stun:a\x7bb" = true := by decide

end Piik.Protocol
