/-
  Both sides read an authority the same way: empty user information, a host in
  or outside brackets, and a port from 1 to 65535.
-/
import Piik.Protocol.Hosts

namespace Piik.Protocol

open Text

/-! ## Ports -/

/-- Nothing, or a colon and a port that both sides accept. -/
def portOk : List Char → Bool
  | [] => true
  | c :: port =>
    c = ':' && (port.all Char.isDigit && (0 < number 10 port && number 10 port ≤ 65535))

/-- What both sides make of a host and a port, given the hosts they accept outside brackets. -/
def endpoint (domain : List Char → Bool) (hostPort : List Char) : Bool :=
  if hostPort.head? = some '[' then
    (cutLast ']' (hostPort.drop 1)).any fun p => Whatwg.parseIPv6 p.1 && portOk p.2
  else
    !(hostPort.takeWhile (· ≠ ':')).isEmpty && (domain (hostPort.takeWhile (· ≠ ':')) &&
      portOk (hostPort.dropWhile (· ≠ ':')))

theorem portOk_digits {tail : List Char} (h : portOk tail = true) :
    tail = [] ∨ ∃ port, tail = ':' :: port ∧ port.all Char.isDigit = true := by
  rcases tail with _ | ⟨c, port⟩
  · exact .inl rfl
  · rw [portOk, Bool.and_eq_true, Bool.and_eq_true, decide_eq_true_eq] at h
    exact .inr ⟨port, h.1 ▸ rfl, h.2.1⟩

/-- A port holds digits and its colon. -/
theorem notMem_portOk {tail : List Char} (h : portOk tail = true) {c : Char} (hc : c ≠ ':')
    (hdigit : c.isDigit = false) : c ∉ tail := by
  rcases portOk_digits h with rfl | ⟨port, rfl, hport⟩
  · exact List.not_mem_nil
  · intro hmem
    rcases List.mem_cons.1 hmem with rfl | hmem
    · exact hc rfl
    · rw [List.all_eq_true.1 hport c hmem] at hdigit
      cases hdigit

theorem validOptionalPort_digits {tail : List Char} (h : NetUrl.validOptionalPort tail = true) :
    tail = [] ∨ ∃ port, tail = ':' :: port ∧ port.all Char.isDigit = true := by
  rcases tail with _ | ⟨c, port⟩
  · exact .inl rfl
  · rw [NetUrl.validOptionalPort, Bool.and_eq_true, decide_eq_true_eq] at h
    exact .inr ⟨port, h.1 ▸ rfl, h.2⟩

theorem validOptionalPort_of_portOk {tail : List Char} (h : portOk tail = true) :
    NetUrl.validOptionalPort tail = true := by
  rcases portOk_digits h with rfl | ⟨port, rfl, hport⟩
  · rfl
  · exact hport

/-- What `ValidStunURL` asks of a port that `net/url` accepted. -/
theorem portOk_atoi {port : List Char} (hport : port.all Char.isDigit = true) (hne : port ≠ []) :
    portOk (':' :: port) = (port.isEmpty || (atoi port).any fun n => 0 < n && n ≤ 65535) := by
  have hempty : port.isEmpty = false := by simpa using hne
  rw [portOk, hport, hempty, atoi]
  by_cases hfit : number 10 port < 2 ^ 63
  · rw [if_pos hfit]
    simp
  · rw [if_neg hfit]
    have : ¬ number 10 port ≤ 65535 := by omega
    simp [this]

theorem portState_cons (buffer : List Char) (c : Char) (port : List Char) :
    Whatwg.portState buffer (c :: port) =
      if c.isDigit then Whatwg.portState (buffer ++ [c]) port else none := rfl

/-- The port state reads digits to the end. -/
theorem portState_eq : ∀ (buffer port : List Char), Whatwg.portState buffer port =
    if port.all Char.isDigit then Whatwg.portState (buffer ++ port) [] else none
  | buffer, [] => by simp
  | buffer, c :: port => by
    rw [portState_cons, List.all_cons]
    by_cases hc : c.isDigit = true
    · rw [if_pos hc, portState_eq, hc, Bool.true_and, List.append_assoc, List.singleton_append]
    · rw [if_neg hc, eq_false_of_ne_true hc]
      rfl

/-- What `isValidStunUrl` asks of the port. -/
theorem portOk_portState {port : List Char} (hne : port ≠ []) :
    portOk (':' :: port) =
      (Whatwg.portState [] port).any fun port => port.all fun n => decide (0 < n) := by
  have hempty : port.isEmpty = false := by simpa using hne
  rw [portState_eq, portOk, List.nil_append]
  by_cases hport : port.all Char.isDigit = true
  · rw [if_pos hport, Whatwg.portState, hempty, hport]
    by_cases hlarge : number 10 port > 65535
    · have : ¬ number 10 port ≤ 65535 := by omega
      simp [hlarge, this]
    · have : number 10 port ≤ 65535 := by omega
      by_cases hdefault : number 10 port = 80
      · simp [hdefault]
      · simp [hlarge, this, hdefault]
  · rw [if_neg hport, eq_false_of_ne_true hport]
    simp

/-! ## `ValidStunURL` -/

/-- What `ValidStunURL` asks of the host and port that `net/url` found. -/
def validHostPort (hostPort : List Char) : Bool :=
  match NetUrl.parseHost hostPort with
  | none => false
  | some host =>
    let (hostname, port) := NetUrl.splitHostPort host
    if hostname.isEmpty || !validWHATWGHost host hostname then false
    else port.isEmpty || (atoi port).any fun number => 0 < number && number ≤ 65535

theorem shouldEscape_of_isDigit {c : Char} (h : c.isDigit = true) : NetUrl.shouldEscape c = false := by
  simp [NetUrl.shouldEscape, Char.isAlphanum, h]

theorem unescapeHost_digits {port : List Char} (h : port.all Char.isDigit = true) :
    (':' :: port).any NetUrl.shouldEscape = false := by
  refine List.any_eq_false.2 fun c hc => ne_true_of_eq_false ?_
  rcases List.mem_cons.1 hc with rfl | hc
  · rfl
  · exact shouldEscape_of_isDigit (List.all_eq_true.1 h c hc)

theorem printable_of_address {c : Char} (h : isAddressCharacter c = true) : Printable c := by
  simp only [isAddressCharacter, Bool.or_eq_true, decide_eq_true_eq] at h
  rcases h with (h | rfl) | rfl
  · have hdigit := of_decide_eq_true h
    unfold radixDigit at hdigit
    have range {low high : Char} (h : low ≤ c ∧ c ≤ high) : low.toNat ≤ c.toNat ∧ c.toNat ≤ high.toNat := h
    split at hdigit
    · next hc => exact ⟨le_trans (by decide) (range hc).1, (range hc).2.trans (by decide)⟩
    · split at hdigit
      · next hc => exact ⟨le_trans (by decide) (range hc).1, (range hc).2.trans (by decide)⟩
      · split at hdigit
        · next hc => exact ⟨le_trans (by decide) (range hc).1, (range hc).2.trans (by decide)⟩
        · omega
  · decide
  · decide

theorem address_characters {c : Char} (h : isAddressCharacter c = true) :
    NetUrl.shouldEscape c = false ∧ c ≠ '%' ∧ c ≠ '[' ∧ c ≠ ']' :=
  printable_forall (P := fun c => isAddressCharacter c = true →
    NetUrl.shouldEscape c = false ∧ c ≠ '%' ∧ c ≠ '[' ∧ c ≠ ']') (by decide +kernel)
    (printable_of_address h) h

theorem takeWhile_cut {host port : List Char} (h : ':' ∉ host) :
    (host ++ ':' :: port).takeWhile (· ≠ ':') = host ∧
      (host ++ ':' :: port).dropWhile (· ≠ ':') = ':' :: port := by
  have hall : ∀ c ∈ host, decide (c ≠ ':') = true := fun c hc => decide_eq_true fun heq => h (heq ▸ hc)
  constructor
  · rw [List.takeWhile_append_of_pos hall]
    simp
  · rw [List.dropWhile_append_of_pos hall]
    simp

theorem takeWhile_uncut {host : List Char} (h : ':' ∉ host) :
    host.takeWhile (· ≠ ':') = host ∧ host.dropWhile (· ≠ ':') = [] := by
  have hall : ∀ c ∈ host, decide (c ≠ ':') = true := fun c hc => decide_eq_true fun heq => h (heq ▸ hc)
  exact ⟨List.takeWhile_eq_self_iff.2 hall, List.dropWhile_eq_nil_iff.2 hall⟩

/-- A bracket after the beginning is in no host and no port. -/
theorem endpoint_bracket {domain : List Char → Bool} {hostPort : List Char}
    (hhead : hostPort.head? ≠ some '[') (hmem : '[' ∈ hostPort)
    (hdomain : '[' ∈ hostPort.takeWhile (· ≠ ':') → domain (hostPort.takeWhile (· ≠ ':')) = false) :
    endpoint domain hostPort = false := by
  rw [endpoint, if_neg hhead]
  rw [← List.takeWhile_append_dropWhile (p := (· ≠ ':')) (l := hostPort)] at hmem
  rcases List.mem_append.1 hmem with hhost | htail
  · rw [hdomain hhost, Bool.false_and, Bool.and_false]
  · have htail' : portOk (hostPort.dropWhile (· ≠ ':')) = false := by
      refine Bool.eq_false_iff.2 fun hport => ?_
      exact notMem_portOk hport (by decide) (by decide) htail
    rw [htail', Bool.and_false, Bool.and_false]

theorem forbidden_bracket {host : List Char} (h : '[' ∈ host) :
    host.any Whatwg.isForbiddenDomainCodePoint = true :=
  List.any_eq_true.2 ⟨'[', h, by decide⟩

theorem head?_takeWhile_ne {hostPort : List Char} (hhead : hostPort.head? ≠ some '[') :
    (hostPort.takeWhile (· ≠ ':')).head? ≠ some '[' := by
  rw [List.head?_takeWhile]
  intro h
  exact hhead (Option.filter_eq_some_iff.1 h).1

theorem printable_takeWhile {hostPort : List Char} (h : ∀ c ∈ hostPort, Printable c) :
    ∀ c ∈ hostPort.takeWhile (· ≠ ':'), Printable c :=
  fun c hc => h c ((List.takeWhile_prefix _).subset hc)

/-- Outside brackets the host ends at the only colon. -/
theorem validHostPort_domain {hostPort : List Char} (h : ∀ c ∈ hostPort, Printable c)
    (hhead : hostPort.head? ≠ some '[') (hlast : hostPort.getLast? ≠ some ':') :
    validHostPort hostPort = endpoint validHostText hostPort := by
  cases hcut : cutLast '[' hostPort with
  | some p =>
    obtain ⟨before, literal⟩ := p
    obtain ⟨heq, -⟩ := cutLast_eq_some.1 hcut
    have hbefore : before.isEmpty = false := by
      cases before with
      | nil => exact absurd (by rw [heq]; rfl) hhead
      | cons => rfl
    have hgo : validHostPort hostPort = false := by
      cases hclose : cutLast ']' literal with
      | none => simp [validHostPort, NetUrl.parseHost, hcut, hclose]
      | some p => simp [validHostPort, NetUrl.parseHost, hcut, hclose, hbefore]
    rw [hgo]
    refine (endpoint_bracket hhead (by rw [heq]; simp) fun hmem => ?_).symm
    rw [validHostText_eq (printable_takeWhile h) (head?_takeWhile_ne hhead), forbidden_bracket hmem]
    rfl
  | none =>
    rw [endpoint, if_neg hhead]
    cases hcolon : cut ':' hostPort with
    | none =>
      have hnone := cut_eq_none.1 hcolon
      obtain ⟨htake, hdrop⟩ := takeWhile_uncut hnone
      rw [htake, hdrop, validHostText]
      have hparse : NetUrl.parseHost hostPort = NetUrl.unescapeHost hostPort := by
        simp [NetUrl.parseHost, hcut, hcolon]
      have hsplit : NetUrl.splitHostPort hostPort = (hostPort, []) := by
        simp [NetUrl.splitHostPort, NetUrl.cutPort, cutLast_eq_none.2 hnone, hhead]
      rw [validHostPort, hparse, NetUrl.unescapeHost]
      cases hostPort.any NetUrl.shouldEscape with
      | true => simp
      | false =>
        simp only [Bool.false_eq_true, if_false, hsplit]
        cases hostPort.isEmpty <;> cases validWHATWGHost hostPort hostPort <;> rfl
    | some p =>
      obtain ⟨host, port⟩ := p
      obtain ⟨rfl, hmem⟩ := cut_eq_some.1 hcolon
      obtain ⟨htake, hdrop⟩ := @takeWhile_cut host port hmem
      have hne : port ≠ [] := by
        rintro rfl
        exact hlast (by simp)
      rw [htake, hdrop, validHostText]
      by_cases hport : port.all Char.isDigit = true
      · have hparse : NetUrl.parseHost (host ++ ':' :: port) = NetUrl.unescapeHost (host ++ ':' :: port) := by
          simp [NetUrl.parseHost, hcut, hcolon, NetUrl.validOptionalPort, hport]
        have hescape : (host ++ ':' :: port).any NetUrl.shouldEscape = host.any NetUrl.shouldEscape := by
          rw [List.any_append, unescapeHost_digits hport, Bool.or_false]
        have hcolons : ':' ∉ port := fun hc => by
          have := List.all_eq_true.1 hport _ hc
          cases this
        have hhost : host.head? ≠ some '[' := htake ▸ head?_takeWhile_ne hhead
        have hsplit : NetUrl.splitHostPort (host ++ ':' :: port) = (host, port) := by
          have hlastCut : cutLast ':' (host ++ ':' :: port) = some (host, port) :=
            cutLast_eq_some.2 ⟨rfl, hcolons⟩
          simp [NetUrl.splitHostPort, NetUrl.cutPort, hlastCut, NetUrl.validOptionalPort, hport, hhost]
        have hprintable := htake ▸ printable_takeWhile h
        rw [validHostPort, hparse, NetUrl.unescapeHost, hescape, portOk_atoi hport hne]
        cases host.any NetUrl.shouldEscape with
        | true => simp
        | false =>
          simp only [Bool.false_eq_true, if_false, hsplit]
          rw [validWHATWGHost_eq hprintable hhead, ← validWHATWGHost_eq hprintable hhost]
          cases host.isEmpty <;> cases validWHATWGHost host host <;> rfl
      · have hparse : NetUrl.parseHost (host ++ ':' :: port) = none := by
          simp [NetUrl.parseHost, hcut, hcolon, NetUrl.validOptionalPort, eq_false_of_ne_true hport]
        rw [validHostPort, hparse, portOk, eq_false_of_ne_true hport]
        simp

/-- The address between the brackets has a colon and no percent sign. -/
theorem validWHATWGHost_address {rawHost inner : List Char} (hraw : rawHost.head? = some '[')
    (h : Whatwg.parseIPv6 inner = true) : validWHATWGHost rawHost inner = true := by
  have hcolon : ':' ∈ inner := by
    have hgo := isIPv6_eq inner
    rw [h, NetUrl.isIPv6] at hgo
    split at hgo
    · next hfind => exact List.mem_of_find?_eq_some hfind
    · cases hgo
  have hpercent : '%' ∉ inner := fun hc =>
    (address_characters (List.all_eq_true.1 (parseIPv6_characters h) '%' hc)).2.1 rfl
  rw [validWHATWGHost, if_pos hraw]
  simp [hcolon, hpercent]

theorem endpoint_literal (domain : List Char → Bool) (literal : List Char) :
    endpoint domain ('[' :: literal) =
      (cutLast ']' literal).any fun p => Whatwg.parseIPv6 p.1 && portOk p.2 := rfl

theorem parseIPv6_brackets {inner : List Char} (h : Whatwg.parseIPv6 inner = true) :
    '[' ∉ inner ∧ ']' ∉ inner := by
  have hall := List.all_eq_true.1 (parseIPv6_characters h)
  exact ⟨fun hc => (address_characters (hall _ hc)).2.2.1 rfl,
    fun hc => (address_characters (hall _ hc)).2.2.2 rfl⟩

/-- An address in brackets, and a port that both sides accept. -/
theorem endpoint_literal_iff {domain : List Char → Bool} {literal : List Char} :
    endpoint domain ('[' :: literal) = true ↔ ∃ inner tail, literal = inner ++ ']' :: tail ∧
      Whatwg.parseIPv6 inner = true ∧ portOk tail = true := by
  rw [endpoint_literal, Option.any_eq_true]
  constructor
  · rintro ⟨⟨inner, tail⟩, hcut, h⟩
    rw [Bool.and_eq_true] at h
    exact ⟨inner, tail, (cutLast_eq_some.1 hcut).1, h⟩
  · rintro ⟨inner, tail, rfl, hinner, htail⟩
    refine ⟨(inner, tail), cutLast_eq_some.2 ⟨rfl, notMem_portOk htail (by decide) (by decide)⟩, ?_⟩
    rw [hinner, htail]
    rfl

/-- No port follows the last colon of a text that ends in a bracket. -/
theorem cutPort_bracket (literal : List Char) :
    NetUrl.cutPort (literal ++ [']']) = (literal ++ [']'], []) := by
  unfold NetUrl.cutPort
  split
  · next host port hcut =>
    refine if_neg fun hvalid => ?_
    have hlast := congrArg List.getLast? (cutLast_eq_some.1 hcut).1
    rw [List.getLast?_concat, List.getLast?_append, List.getLast?_cons] at hlast
    cases hport : port.getLast? with
    | none => simp [hport] at hlast
    | some d =>
      have hd : d.isDigit = true :=
        List.all_eq_true.1 (hvalid : port.all Char.isDigit = true) d (List.mem_of_getLast? hport)
      simp only [hport, Option.getD_some, Option.some_or, Option.some.injEq] at hlast
      rw [← hlast] at hd
      cases hd
  · rfl

theorem cutPort_colon {host port : List Char} (hport : port.all Char.isDigit = true) :
    NetUrl.cutPort (host ++ ':' :: port) = (host, port) := by
  have hcolons : ':' ∉ port := fun hc => by
    have := List.all_eq_true.1 hport _ hc
    cases this
  have hvalid : NetUrl.validOptionalPort (':' :: port) = true := hport
  rw [NetUrl.cutPort, cutLast_eq_some.2 ⟨rfl, hcolons⟩]
  exact if_pos hvalid

theorem splitHostPort_address {inner tail : List Char} (htail : NetUrl.validOptionalPort tail = true) :
    NetUrl.splitHostPort ('[' :: inner ++ ']' :: tail) = (inner, tail.drop 1) := by
  have hcut : NetUrl.cutPort ('[' :: inner ++ ']' :: tail) =
      ('[' :: inner ++ [']'], tail.drop 1) := by
    rcases validOptionalPort_digits htail with rfl | ⟨port, rfl, hport⟩
    · exact cutPort_bracket _
    · have hsplit : '[' :: inner ++ ']' :: ':' :: port = ('[' :: inner ++ [']']) ++ ':' :: port := by
        simp
      rw [hsplit]
      exact cutPort_colon hport
  have hlast : ('[' :: (inner ++ [']'])).getLast? = some ']' := by
    rw [← List.cons_append]
    exact List.getLast?_concat ..
  rw [NetUrl.splitHostPort, hcut]
  simp only [hlast, List.cons_append, List.head?_cons, decide_true, Bool.and_self, if_true,
    List.drop_one, List.tail_cons, List.dropLast_concat]

theorem unescapeHost_some {s : List Char} (h : s.any NetUrl.shouldEscape = false) :
    NetUrl.unescapeHost s = some s := by
  rw [NetUrl.unescapeHost, h]
  rfl

theorem unescapeHost_eq_some {s s' : List Char} (h : NetUrl.unescapeHost s = some s') : s' = s := by
  unfold NetUrl.unescapeHost at h
  split at h
  · cases h
  · exact (Option.some.inj h).symm

theorem parseHost_literal {inner tail : List Char} (hinner : Whatwg.parseIPv6 inner = true)
    (hopen : '[' ∉ tail) (hclose : ']' ∉ tail) :
    NetUrl.parseHost ('[' :: (inner ++ ']' :: tail)) =
      if NetUrl.validOptionalPort tail then some ('[' :: inner ++ ']' :: tail) else none := by
  have hcut : cutLast '[' ('[' :: (inner ++ ']' :: tail)) = some ([], inner ++ ']' :: tail) := by
    refine cutLast_eq_some.2 ⟨rfl, fun hmem => ?_⟩
    rcases List.mem_append.1 hmem with hmem | hmem
    · exact (parseIPv6_brackets hinner).1 hmem
    · exact hopen ((List.mem_cons.1 hmem).resolve_left (by decide))
  have hcut' : cutLast ']' (inner ++ ']' :: tail) = some (inner, tail) :=
    cutLast_eq_some.2 ⟨rfl, hclose⟩
  have hescape : inner.any NetUrl.shouldEscape = false :=
    List.any_eq_false.2 fun c hc => ne_true_of_eq_false
      (address_characters (List.all_eq_true.1 (parseIPv6_characters hinner) c hc)).1
  by_cases htail : NetUrl.validOptionalPort tail = true
  · have hport : tail.any NetUrl.shouldEscape = false := by
      rcases validOptionalPort_digits htail with rfl | ⟨port, rfl, hport⟩
      · rfl
      · exact unescapeHost_digits hport
    rw [NetUrl.parseHost, hcut]
    simp only [hcut', htail, unescapeHost_some hport, unescapeHost_some hescape, isIPv6_eq, hinner]
    rfl
  · simp [NetUrl.parseHost, hcut, hcut', htail]

/-- Brackets that `net/url` accepts hold an IPv6 address. -/
theorem parseHost_literal_some {literal host : List Char}
    (h : NetUrl.parseHost ('[' :: literal) = some host) : ∃ inner tail,
      literal = inner ++ ']' :: tail ∧ '[' ∉ tail ∧ ']' ∉ tail ∧ Whatwg.parseIPv6 inner = true := by
  cases hcut : cutLast '[' literal with
  | some p =>
    have hcut' : cutLast '[' ('[' :: literal) = some ('[' :: p.1, p.2) := by rw [cutLast, hcut]
    cases hclose : cutLast ']' p.2 with
    | none => simp [NetUrl.parseHost, hcut', hclose] at h
    | some q => simp [NetUrl.parseHost, hcut', hclose] at h
  | none =>
    have hopen := cutLast_eq_none.1 hcut
    have hcut' : cutLast '[' ('[' :: literal) = some ([], literal) := cutLast_eq_some.2 ⟨rfl, hopen⟩
    cases hclose : cutLast ']' literal with
    | none => simp [NetUrl.parseHost, hcut', hclose] at h
    | some p =>
      obtain ⟨inner, tail⟩ := p
      obtain ⟨rfl, hmem⟩ := cutLast_eq_some.1 hclose
      refine ⟨inner, tail, rfl, fun hc => hopen (by simp [hc]), hmem, ?_⟩
      simp only [NetUrl.parseHost, hcut', hclose] at h
      split at h
      · cases h
      · split at h
        · next hinner =>
          split at h
          · next haddress =>
            rw [unescapeHost_eq_some hinner, isIPv6_eq] at haddress
            exact haddress
          · cases h
        · cases h

theorem validHostPort_literal {inner tail : List Char} (hinner : Whatwg.parseIPv6 inner = true)
    (hopen : '[' ∉ tail) (hclose : ']' ∉ tail) (hcolon : tail ≠ [':']) :
    validHostPort ('[' :: (inner ++ ']' :: tail)) = portOk tail := by
  rw [validHostPort, parseHost_literal hinner hopen hclose]
  by_cases htail : NetUrl.validOptionalPort tail = true
  · have hne : inner.isEmpty = false := by
      cases inner with
      | nil => cases hinner
      | cons => rfl
    have hhost : validWHATWGHost ('[' :: inner ++ ']' :: tail) inner = true :=
      validWHATWGHost_address rfl hinner
    simp only [htail, if_true, splitHostPort_address htail, hne, hhost]
    rcases validOptionalPort_digits htail with rfl | ⟨port, rfl, hport⟩
    · rfl
    · rw [portOk_atoi hport fun hnil => hcolon (hnil ▸ rfl)]
      rfl
  · rw [if_neg htail]
    exact (Bool.eq_false_iff.2 fun hport => htail (validOptionalPort_of_portOk hport)).symm

/-- Between brackets both sides want an IPv6 address. -/
theorem validHostPort_address {literal : List Char} (hlast : ('[' :: literal).getLast? ≠ some ':') :
    validHostPort ('[' :: literal) = endpoint validHostText ('[' :: literal) := by
  have hcolon {inner tail : List Char} (h : literal = inner ++ ']' :: tail) : tail ≠ [':'] := by
    rintro rfl
    have hsplit : '[' :: (inner ++ [']', ':']) = ('[' :: inner ++ [']']) ++ [':'] := by simp
    rw [h, hsplit, List.getLast?_concat] at hlast
    exact hlast rfl
  rw [Bool.eq_iff_iff, endpoint_literal_iff]
  constructor
  · intro h
    cases hparse : NetUrl.parseHost ('[' :: literal) with
    | none => simp [validHostPort, hparse] at h
    | some host =>
      obtain ⟨inner, tail, rfl, hopen, hclose, hinner⟩ := parseHost_literal_some hparse
      rw [validHostPort_literal hinner hopen hclose (hcolon rfl)] at h
      exact ⟨inner, tail, rfl, hinner, h⟩
  · rintro ⟨inner, tail, rfl, hinner, htail⟩
    rw [validHostPort_literal hinner (notMem_portOk htail (by decide) (by decide))
      (notMem_portOk htail (by decide) (by decide)) (hcolon rfl)]
    exact htail

theorem validHostPort_eq {hostPort : List Char} (h : ∀ c ∈ hostPort, Printable c)
    (hlast : hostPort.getLast? ≠ some ':') :
    validHostPort hostPort = endpoint validHostText hostPort := by
  by_cases hhead : hostPort.head? = some '['
  · obtain ⟨literal, rfl⟩ : ∃ literal, hostPort = '[' :: literal := List.head?_eq_some_iff.1 hhead
    exact validHostPort_address hlast
  · exact validHostPort_domain h hhead hlast

/-! ## `isValidStunUrl` -/

variable (uts46 : List Char → Option (List Char))

/-- What `isValidStunUrl` asks of the host and port that the WHATWG parser found. -/
def isValidHostPort (hostPort : List Char) : Bool :=
  (Whatwg.hostState false [] hostPort).any fun p =>
    (Whatwg.parseHost uts46 p.1).any (fun host => !host.isEmpty) &&
      (Whatwg.portState [] p.2).any fun port => port.all fun n => decide (0 < n)

theorem hasPunycodeLabel_append : ∀ {labelStart : Bool} {s t : List Char},
    Whatwg.hasPunycodeLabel labelStart (s ++ t) = false → Whatwg.hasPunycodeLabel labelStart s = false
  | _, [], _, _ => rfl
  | labelStart, c :: rest, t, h => by
    rw [List.cons_append, Whatwg.hasPunycodeLabel, Bool.or_eq_false_iff] at h
    rw [Whatwg.hasPunycodeLabel, Bool.or_eq_false_iff]
    refine ⟨?_, hasPunycodeLabel_append h.2⟩
    refine Bool.eq_false_iff.2 fun hlabel => ne_true_of_eq_false h.1 ?_
    rw [Bool.and_eq_true] at hlabel ⊢
    refine ⟨hlabel.1, ?_⟩
    rw [List.isPrefixOf_iff_prefix] at hlabel ⊢
    refine hlabel.2.trans ?_
    rw [← List.cons_append, Whatwg.asciiLowercase, Whatwg.asciiLowercase, List.map_append]
    exact List.prefix_append _ _

/-- The host state stops at a colon or at the end. -/
theorem hostState_some : ∀ {inside : Bool} {buffer s hostText portText : List Char},
    Whatwg.hostState inside buffer s = some (hostText, portText) →
    (hostText = buffer ++ s ∧ portText = []) ∨
      ∃ mid, s = mid ++ ':' :: portText ∧ hostText = buffer ++ mid
  | inside, buffer, [], hostText, portText, h => by
    rw [Whatwg.hostState] at h
    split at h
    · cases h
    · cases h
      exact .inl ⟨(List.append_nil _).symm, rfl⟩
  | inside, buffer, c :: rest, hostText, portText, h => by
    rw [Whatwg.hostState] at h
    split at h
    · next hcolon =>
      rw [Bool.and_eq_true, decide_eq_true_eq] at hcolon
      split at h
      · cases h
      · cases h
        exact .inr ⟨[], by rw [hcolon.1]; rfl, (List.append_nil _).symm⟩
    · rcases hostState_some h with ⟨rfl, rfl⟩ | ⟨mid, rfl, rfl⟩
      · exact .inl ⟨by simp, rfl⟩
      · exact .inr ⟨c :: mid, rfl, by simp⟩

/-- Without an opening bracket the host ends at the first colon. -/
theorem hostState_domain : ∀ {s : List Char} (buffer : List Char),
    '[' ∉ s.takeWhile (· ≠ ':') → Whatwg.hostState false buffer s =
      if (buffer ++ s.takeWhile (· ≠ ':')).isEmpty then none
      else some (buffer ++ s.takeWhile (· ≠ ':'), (s.dropWhile (· ≠ ':')).drop 1)
  | [], buffer, _ => by simp [Whatwg.hostState]
  | c :: rest, buffer, h => by
    by_cases hc : c = ':'
    · subst hc
      simp [Whatwg.hostState]
    · have htake : (c :: rest).takeWhile (· ≠ ':') = c :: rest.takeWhile (· ≠ ':') := by simp [hc]
      have hdrop : (c :: rest).dropWhile (· ≠ ':') = rest.dropWhile (· ≠ ':') := by simp [hc]
      rw [htake, List.mem_cons, not_or] at h
      rw [Whatwg.hostState, if_neg (by simp [hc]), if_neg (Ne.symm h.1), ite_self,
        hostState_domain (buffer ++ [c]) h.2, htake, hdrop, List.append_assoc, List.singleton_append]

/-- What follows the host, with the colon that ends it. -/
theorem portOk_rest {tail : List Char} (hcolon : tail ≠ [':']) (h : tail = [] ∨ tail.head? = some ':') :
    portOk tail =
      (Whatwg.portState [] (tail.drop 1)).any fun port => port.all fun n => decide (0 < n) := by
  rcases tail with _ | ⟨c, port⟩
  · rfl
  · obtain rfl : c = ':' := Option.some.inj (h.resolve_left (List.cons_ne_nil _ _))
    exact portOk_portState fun hnil => hcolon (hnil ▸ rfl)

theorem getLast?_dropWhile {hostPort : List Char} (hlast : hostPort.getLast? ≠ some ':') :
    hostPort.dropWhile (· ≠ ':') ≠ [':'] := by
  intro h
  refine hlast ?_
  rw [← List.takeWhile_append_dropWhile (p := (· ≠ ':')) (l := hostPort), h]
  exact List.getLast?_concat ..

theorem head?_dropWhile_colon (hostPort : List Char) :
    hostPort.dropWhile (· ≠ ':') = [] ∨ (hostPort.dropWhile (· ≠ ':')).head? = some ':' := by
  rcases hdrop : hostPort.dropWhile (· ≠ ':') with _ | ⟨c, rest⟩
  · exact .inl rfl
  · have hc := List.head?_dropWhile_not (· ≠ ':') hostPort
    rw [hdrop] at hc
    exact .inr (by simpa using hc)

theorem takeWhile_before_colon (s rest : List Char) :
    (s ++ ':' :: rest).takeWhile (· ≠ ':') = s.takeWhile (· ≠ ':') := by
  induction s with
  | nil => rfl
  | cons c s ih =>
    by_cases hc : c = ':'
    · simp [hc]
    · rw [List.cons_append, List.takeWhile_cons_of_pos (by simpa using hc), ih,
        List.takeWhile_cons_of_pos (by simpa using hc)]

/-- Outside brackets the host ends at the first colon. -/
theorem isValidHostPort_domain {hostPort : List Char} (h : ∀ c ∈ hostPort, Printable c)
    (hpunycode : Whatwg.hasPunycodeLabel true hostPort = false)
    (hhead : hostPort.head? ≠ some '[') (hlast : hostPort.getLast? ≠ some ':') :
    isValidHostPort uts46 hostPort = endpoint (isValidHostText uts46) hostPort := by
  have hsplit := List.takeWhile_append_dropWhile (p := (· ≠ ':')) (l := hostPort)
  have hlabel : Whatwg.hasPunycodeLabel true (hostPort.takeWhile (· ≠ ':')) = false :=
    hasPunycodeLabel_append (t := hostPort.dropWhile (· ≠ ':')) (hsplit.symm ▸ hpunycode)
  by_cases hmem : '[' ∈ hostPort.takeWhile (· ≠ ':')
  · have hrefused (host rest : List Char) (heq : hostPort = host ++ rest) (hhost : '[' ∈ host) :
        isValidHostText uts46 host = false := by
      have hne : host ≠ [] := List.ne_nil_of_mem hhost
      have hhostHead : host.head? ≠ some '[' := by
        rw [heq, List.head?_append_of_ne_nil _ hne] at hhead
        exact hhead
      rw [isValidHostText_eq uts46 (fun c hc => h c (heq ▸ List.mem_append_left _ hc)) hne
        (hasPunycodeLabel_append (t := rest) (heq ▸ hpunycode)) hhostHead, forbidden_bracket hhost]
      rfl
    rw [endpoint, if_neg hhead, hrefused _ _ hsplit.symm hmem, Bool.false_and, Bool.and_false,
      isValidHostPort]
    refine (Option.any_eq_false _ _).2 ?_
    rintro ⟨hostText, portText⟩ hstate
    have hvalid : isValidHostText uts46 hostText = false := by
      rcases hostState_some hstate with ⟨rfl, -⟩ | ⟨mid, heq, rfl⟩
      · exact hrefused _ [] (by simp) ((List.takeWhile_prefix _).subset hmem)
      · refine hrefused _ (':' :: portText) heq ?_
        rw [heq, takeWhile_before_colon] at hmem
        exact (List.takeWhile_prefix _).subset hmem
    have hhost : (Whatwg.parseHost uts46 hostText).any (fun host => !host.isEmpty) = false := hvalid
    simp only [hhost, Bool.false_and]
  · rw [endpoint, if_neg hhead, isValidHostPort, hostState_domain [] hmem, List.nil_append,
      portOk_rest (getLast?_dropWhile hlast) (head?_dropWhile_colon hostPort)]
    cases hempty : (hostPort.takeWhile (· ≠ ':')).isEmpty with
    | true => rfl
    | false => rfl

/-- Inside brackets the host goes on through the colons. -/
theorem hostState_address : ∀ {inner : List Char} (buffer rest : List Char), ']' ∉ inner →
    Whatwg.hostState true buffer (inner ++ ']' :: rest) =
      Whatwg.hostState false (buffer ++ inner ++ [']']) rest
  | [], buffer, rest, _ => by simp [Whatwg.hostState]
  | c :: inner, buffer, rest, h => by
    rw [List.mem_cons, not_or] at h
    have hinside : (if c = '[' then true else if c = ']' then false else true) = true := by
      rw [if_neg (Ne.symm h.1), ite_self]
    rw [List.cons_append, Whatwg.hostState, if_neg (by simp), hinside,
      hostState_address (buffer ++ [c]) rest h.2]
    simp

theorem hostState_closed {buffer tail : List Char} (hne : buffer ≠ [])
    (htail : tail = [] ∨ tail.head? = some ':') :
    Whatwg.hostState false buffer tail = some (buffer, tail.drop 1) := by
  have hempty : buffer.isEmpty = false := by simpa using hne
  rcases tail with _ | ⟨c, port⟩
  · simp [Whatwg.hostState, hne]
  · obtain rfl : c = ':' := Option.some.inj (htail.resolve_left (List.cons_ne_nil _ _))
    simp [Whatwg.hostState, hne]

theorem parseHost_address (inner : List Char) : (Whatwg.parseHost uts46 ('[' :: inner ++ [']'])).any
    (fun host => !host.isEmpty) = Whatwg.parseIPv6 inner := by
  have hlast : ('[' :: (inner ++ [']'])).getLast? = some ']' := by
    rw [← List.cons_append]
    exact List.getLast?_concat ..
  rw [Whatwg.parseHost, if_pos (by rfl)]
  simp only [List.cons_append, hlast, ne_eq, not_true_eq_false, if_false, List.drop_one,
    List.tail_cons, List.dropLast_concat]
  cases Whatwg.parseIPv6 inner <;> rfl

/-- An accepted host that opens a bracket closes it at its end. -/
theorem parseHost_bracket {text : List Char}
    (h : (Whatwg.parseHost uts46 ('[' :: text)).any (fun host => !host.isEmpty) = true) :
    ∃ inner, text = inner ++ [']'] ∧ Whatwg.parseIPv6 inner = true := by
  rcases List.eq_nil_or_concat' text with rfl | ⟨inner, last, rfl⟩
  · simp [Whatwg.parseHost] at h
  · have hlast : ('[' :: (inner ++ [last])).getLast? = some last := by
      rw [← List.cons_append]
      exact List.getLast?_concat ..
    by_cases hclose : last = ']'
    · subst hclose
      exact ⟨inner, rfl, (parseHost_address uts46 inner).symm.trans h⟩
    · simp [Whatwg.parseHost, hlast, hclose] at h

/-- Between brackets both sides want an IPv6 address. -/
theorem isValidHostPort_address {literal : List Char} (hlast : ('[' :: literal).getLast? ≠ some ':') :
    isValidHostPort uts46 ('[' :: literal) = endpoint (isValidHostText uts46) ('[' :: literal) := by
  rw [Bool.eq_iff_iff, endpoint_literal_iff]
  constructor
  · intro h
    obtain ⟨⟨hostText, portText⟩, hstate, haccepted⟩ := (Option.any_eq_true _ _).1 h
    rw [Bool.and_eq_true] at haccepted
    obtain ⟨hhost, hport⟩ := haccepted
    rcases hostState_some hstate with ⟨rfl, rfl⟩ | ⟨_, heq, rfl⟩
    · obtain ⟨inner, rfl, hinner⟩ := parseHost_bracket uts46 hhost
      exact ⟨inner, [], rfl, hinner, rfl⟩
    · rcases hostText with _ | ⟨c, text⟩
      · exact absurd (List.cons.inj heq).1 (by decide)
      · obtain ⟨rfl, htext⟩ := List.cons.inj heq
        obtain rfl : literal = text ++ ':' :: portText := htext
        obtain ⟨inner, rfl, hinner⟩ := parseHost_bracket uts46 hhost
        refine ⟨inner, ':' :: portText, by simp, hinner, ?_⟩
        refine (portOk_portState ?_).trans hport
        rintro rfl
        rw [← List.cons_append, List.getLast?_concat] at hlast
        exact hlast rfl
  · rintro ⟨inner, tail, rfl, hinner, htail⟩
    have htail' : tail = [] ∨ tail.head? = some ':' := by
      rcases portOk_digits htail with rfl | ⟨port, rfl, -⟩
      · exact .inl rfl
      · exact .inr rfl
    have hcolon : tail ≠ [':'] := by
      rintro rfl
      cases htail
    have hstate : Whatwg.hostState false [] ('[' :: (inner ++ ']' :: tail)) =
        some ('[' :: inner ++ [']'], tail.drop 1) := by
      have hopen : Whatwg.hostState false [] ('[' :: (inner ++ ']' :: tail)) =
        Whatwg.hostState true ['['] (inner ++ ']' :: tail) := rfl
      rw [hopen, hostState_address _ _ (parseIPv6_brackets hinner).2]
      exact hostState_closed (by simp) htail'
    rw [isValidHostPort, hstate, Option.any_some, Bool.and_eq_true]
    exact ⟨(parseHost_address uts46 inner).trans hinner, (portOk_rest hcolon htail').symm.trans htail⟩

theorem isValidHostPort_eq {hostPort : List Char} (h : ∀ c ∈ hostPort, Printable c)
    (hpunycode : Whatwg.hasPunycodeLabel true hostPort = false)
    (hlast : hostPort.getLast? ≠ some ':') :
    isValidHostPort uts46 hostPort = endpoint (isValidHostText uts46) hostPort := by
  by_cases hhead : hostPort.head? = some '['
  · obtain ⟨literal, rfl⟩ : ∃ literal, hostPort = '[' :: literal := List.head?_eq_some_iff.1 hhead
    exact isValidHostPort_address uts46 hlast
  · exact isValidHostPort_domain uts46 h hpunycode hhead hlast

end Piik.Protocol
