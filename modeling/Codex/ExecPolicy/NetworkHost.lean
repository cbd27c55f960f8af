import Codex.ExecPolicy.Policy
import Codex.Lib.Delimiter
import Codex.Lib.Fallible

/-!
# Hosts of network rules

`execpolicy/src/rule.rs`: `normalize_network_rule_host`, and `execpolicy/src/policy.rs`:
`compiled_network_domains`. The parsing and printing of IP addresses are parameters.
-/

namespace Codex.ExecPolicy

/-- `FromStr` and `Display` of `Ipv4Addr` and `Ipv6Addr`. -/
structure AddressCodec where
  V4 : Type
  V6 : Type
  parse4 : Text → Option V4
  print4 : V4 → Text
  parse6 : Text → Option V6
  print6 : V6 → Text

def DIGITS : List Char := ['0', '1', '2', '3', '4', '5', '6', '7', '8', '9']

/-- What is documented of them: parsing inverts printing, an IPv4 address is four numbers with
    dots between them, and an IPv6 address is made of lowercase hexadecimal digits, dots and at
    least two colons. -/
structure AddressCodec.Lawful (codec : AddressCodec) : Prop where
  parse4_print4 : ∀ ip, codec.parse4 (codec.print4 ip) = some ip
  parse6_print6 : ∀ ip, codec.parse6 (codec.print6 ip) = some ip
  print4_chars : ∀ ip, ∀ c ∈ codec.print4 ip, c ∈ '.' :: DIGITS
  print4_last : ∀ ip, ∃ front last, codec.print4 ip = front ++ [last] ∧ last ≠ '.'
  print6_chars : ∀ ip, ∀ c ∈ codec.print6 ip,
    c ∈ ':' :: '.' :: 'a' :: 'b' :: 'c' :: 'd' :: 'e' :: 'f' :: DIGITS
  print6_colons : ∀ ip, 2 ≤ (codec.print6 ip).count ':'

/-- `Error` (`error.rs`), the variant of a bad rule. -/
inductive RuleError where
  | invalidRule (message : String)
  deriving DecidableEq, Repr

def invalidRule {α : Type} (message : String) : Except RuleError α :=
  .error (.invalidRule message)

/-- `str::parse::<u16>`: digits behind an optional plus sign. -/
def parseU16 (text : Text) : Option Nat :=
  let digits := if text.head? = some '+' then text.tail else text
  if digits ≠ [] && digits.all Char.isDigit then
    some (digits.foldl (fun value digit => value * 10 + (digit.toNat - '0'.toNat)) 0) |>.filter
      fun value => value < 2 ^ 16
  else none

/-- A port is a `u16` of ASCII digits alone. -/
def isPort (port : Text) : Bool := (parseU16 port).isSome && port.all Char.isDigit

/-- What is left of a host without its brackets and its port (`rule.rs:230`). -/
def withoutPort (raw host : Text) : Except RuleError Text :=
  if host.head? = some '[' then
    ((Text.splitOnce [']'] host.tail).map fun split =>
      let portOk := (Text.stripPrefix [':'] split.2).any isPort
      if split.2 ≠ [] && !portOk then
        invalidRule
          ("network_rule host contains an unsupported suffix: " ++ String.ofList raw)
      else .ok split.1).getD
      (invalidRule "network_rule host has an invalid bracketed IPv6 literal")
  else
    ((Text.rsplitOnce ':' host).map fun split =>
      if split.1.contains ':' then .ok host
      else if split.1 = [] || !isPort split.2 then
        invalidRule "network_rule host has an invalid port"
      else .ok split.1).getD (.ok host)

/-- The last checks of a host without its brackets and its port. -/
def checkHost (normalized : Text) : Except RuleError Unit :=
  if normalized = [] then invalidRule "network_rule host cannot be empty"
  else if normalized.contains '*' then
    invalidRule "network_rule host must be a specific host; wildcards are not allowed"
  else if normalized.any Text.isWhitespace then
    invalidRule "network_rule host cannot contain whitespace"
  else if normalized.any fun c => c = '[' || c = ']' || c = '@' || c = '\\' then
    invalidRule "network_rule host contains invalid syntax"
  else .ok ()

section Hosts

variable (codec : AddressCodec)

/-- The address and the scope of an IPv6 literal (`rule.rs:283`). -/
def canonicalIpv6 (bracketed : Bool) (normalized : Text) : Except RuleError Text :=
  -- Only bracketed input may escape the delimiter.
  let scopedLiteral :=
    if bracketed then
      (Text.splitOnce ['%', '2', '5'] normalized).or (Text.splitOnce ['%'] normalized)
    else Text.splitOnce ['%'] normalized
  let literalAndScope :=
    (scopedLiteral.map fun split =>
      if split.2 ≠ [] && !split.2.contains '%' then .ok (split.1, some split.2)
      else invalidRule "network_rule host has an invalid IPv6 scope").getD
      (.ok (normalized, none))
  literalAndScope.bind fun split =>
    ((codec.parse6 split.1).map fun ip =>
      .ok (codec.print6 ip ++ (split.2.map fun scope => '%' :: scope).getD [])).getD
      (invalidRule "network_rule host has an invalid IPv6 literal")

/-- `parse::<IpAddr>` and its `to_string`. -/
def printedIp (text : Text) : Option Text :=
  ((codec.parse4 text).map codec.print4).or ((codec.parse6 text).map codec.print6)

/-- The host in lower case, without the dots at the end of a name (`rule.rs:254`). -/
def lowered (bracketed : Bool) (host : Text) : Text :=
  if bracketed || host.contains ':' then host.map Char.toLower
  else (host.rdropWhile (· == '.')).map Char.toLower

/-- The host in the form that rules are compared in (`rule.rs:259`). -/
def canonicalHost (bracketed : Bool) (host : Text) : Except RuleError Text :=
  let normalized := lowered bracketed host
  (checkHost normalized).bind fun _ =>
    if bracketed || normalized.contains ':' then canonicalIpv6 codec bracketed normalized
    else .ok ((printedIp codec normalized).getD normalized)

/-- `normalize_network_rule_host` (`rule.rs:216`). -/
def normalizeNetworkRuleHost (raw : Text) : Except RuleError Text :=
  let host := Text.trim raw
  if host = [] then invalidRule "network_rule host cannot be empty"
  else if "://".toList <:+: host || host.contains '/' || host.contains '?' ||
      host.contains '#' then
    invalidRule
      "network_rule host must be a hostname or IP literal (without scheme or path)"
  else (withoutPort raw host).bind fun inner =>
    canonicalHost codec (host.head? = some '[') inner

/-- A character that normalisation leaves and that every check lets through: in lower case, and
    none of those that stand for something else than a host. -/
def PlainChar (c : Char) : Prop :=
  c.toLower = c ∧ Text.isWhitespace c = false ∧ c ∉ ['/', '?', '#', '*', '[', ']', '@', '\\']

instance (c : Char) : Decidable (PlainChar c) := inferInstanceAs (Decidable (_ ∧ _ ∧ _))

/-- A text of such characters. -/
def Plain (text : Text) : Prop := text ≠ [] ∧ ∀ c ∈ text, PlainChar c

variable {c : Char} {text host result : Text} {bracketed : Bool}

/-- Only capital letters have another character as their lower case, and that is a small letter. -/
theorem eq_of_toLower {other : Char} (lower : c.toLower = other) (notSmall : ¬ other.isLower) :
    c = other := by
  by_cases capital : c.isUpper
  · rw [← lower] at notSmall
    simp [Char.isAlpha, capital] at notSmall
  · rw [← lower, Char.toLower_eq_of_not_isUpper capital]

theorem checkHost_ok :
    checkHost text = .ok () ↔ text ≠ [] ∧ '*' ∉ text ∧
      (∀ c ∈ text, Text.isWhitespace c = false) ∧
      ∀ c ∈ text, c ≠ '[' ∧ c ≠ ']' ∧ c ≠ '@' ∧ c ≠ '\\' := by
  have fails : ∀ message, (invalidRule message : Except RuleError Unit) ≠ .ok () := by
    intro message impossible
    cases impossible
  unfold checkHost
  by_cases empty : text = []
  · simp [empty, fails]
  rw [if_neg empty]
  by_cases star : text.contains '*' = true
  · rw [if_pos star]
    exact iff_of_false (fails _) (fun all => all.2.1 (by simpa using star))
  rw [if_neg star]
  by_cases blank : text.any Text.isWhitespace = true
  · rw [if_pos blank]
    obtain ⟨c, member, isBlank⟩ := List.any_eq_true.mp blank
    refine iff_of_false (fails _) (fun all => ?_)
    rw [all.2.2.1 c member] at isBlank
    cases isBlank
  rw [if_neg blank]
  rw [Bool.not_eq_true, List.any_eq_false] at blank
  split
  next mark =>
    obtain ⟨c, member, isMark⟩ := List.any_eq_true.mp mark
    refine iff_of_false (fails _) (fun all => ?_)
    have apart := all.2.2.2 c member
    simp [apart] at isMark
  next clean =>
    rw [Bool.not_eq_true, List.any_eq_false] at clean
    refine iff_of_true rfl ⟨empty, by simpa using star, fun c member => ?_, fun c member => ?_⟩
    · simpa using blank c member
    · simpa [and_assoc] using clean c member

theorem Plain.checkHost (plain : Plain text) : checkHost text = .ok () := by
  rw [checkHost_ok]
  refine ⟨plain.1, fun member => ?_, fun c member => (plain.2 c member).2.1, fun c member => ?_⟩
  · exact (plain.2 _ member).2.2 (by decide)
  · have apart := (plain.2 c member).2.2
    simp only [List.mem_cons, not_or] at apart
    exact ⟨apart.2.2.2.2.1, apart.2.2.2.2.2.1, apart.2.2.2.2.2.2.1, apart.2.2.2.2.2.2.2.1⟩

theorem Plain.not_mem (plain : Plain text)
    (marks : c ∈ ['/', '?', '#', '*', '[', ']', '@', '\\']) : c ∉ text :=
  fun member => (plain.2 c member).2.2 marks

theorem Plain.map_toLower (plain : Plain text) : text.map Char.toLower = text := by
  conv_rhs => rw [← List.map_id text]
  exact List.map_congr_left fun c member => (plain.2 c member).1

/-- What is taken out of a host has its characters. -/
theorem withoutPort_subset {raw inner : Text} (taken : withoutPort raw host = .ok inner) :
    ∀ c ∈ inner, c ∈ host := by
  unfold withoutPort at taken
  split at taken
  · cases split : Text.splitOnce [']'] host.tail with
    | none =>
      rw [split] at taken
      cases taken
    | some parts =>
      rw [split] at taken
      simp only [Option.map_some, Option.getD_some] at taken
      split at taken
      · cases taken
      · cases taken
        intro c member
        apply List.mem_of_mem_tail
        rw [Text.splitOnce_eq_append split]
        simp [member]
  · cases split : Text.rsplitOnce ':' host with
    | none =>
      rw [split] at taken
      cases taken
      exact fun c member => member
    | some parts =>
      rw [split] at taken
      simp only [Option.map_some, Option.getD_some] at taken
      split at taken
      · cases taken
        exact fun c member => member
      split at taken
      · cases taken
      · cases taken
        intro c member
        rw [Text.rsplitOnce_eq_append split]
        simp [member]

theorem mem_lowered (member : c ∈ lowered bracketed host) : ∃ other ∈ host, other.toLower = c := by
  unfold lowered at member
  split at member
  · exact List.mem_map.mp member
  · obtain ⟨other, inside, same⟩ := List.mem_map.mp member
    exact ⟨other, (List.rdropWhile_prefix _ _).subset inside, same⟩

theorem plain_lowered (checked : ExecPolicy.checkHost (lowered bracketed host) = .ok ())
    (clear : ∀ c ∈ host, c ≠ '/' ∧ c ≠ '?' ∧ c ≠ '#') : Plain (lowered bracketed host) := by
  rw [checkHost_ok] at checked
  refine ⟨checked.1, fun c member => ⟨?_, checked.2.2.1 c member, fun marks => ?_⟩⟩
  · obtain ⟨other, -, rfl⟩ := mem_lowered member
    exact Char.toLower_toLower_eq_toLower other
  obtain ⟨other, inside, lower⟩ := mem_lowered member
  have notSmall : ¬ c.isLower := by
    revert marks
    simp only [List.mem_cons, List.not_mem_nil, or_false]
    rintro (rfl | rfl | rfl | rfl | rfl | rfl | rfl | rfl) <;> decide
  have same := eq_of_toLower lower notSmall
  subst same
  have apart := clear other inside
  have syntaxMarks := checked.2.2.2 other member
  simp only [List.mem_cons, List.not_mem_nil, or_false] at marks
  rcases marks with rfl | rfl | rfl | rfl | rfl | rfl | rfl | rfl
  · exact apart.1 rfl
  · exact apart.2.1 rfl
  · exact apart.2.2 rfl
  · exact checked.2.1 member
  · exact syntaxMarks.1 rfl
  · exact syntaxMarks.2.1 rfl
  · exact syntaxMarks.2.2.1 rfl
  · exact syntaxMarks.2.2.2 rfl

/-- A name has lost the dots at its end. -/
theorem lowered_dotless (name : ':' ∉ lowered false host) :
    (lowered false host).rdropWhile (· == '.') = lowered false host := by
  by_cases colon : ':' ∈ host
  · exfalso
    apply name
    rw [lowered, if_pos (by simpa using colon)]
    exact List.mem_map.mpr ⟨':', colon, by decide⟩
  rw [lowered, if_neg (by simpa using colon), List.rdropWhile_eq_self_iff]
  intro nonempty dot
  have last := List.rdropWhile_last_not (· == '.') host (by simpa using nonempty)
  rw [List.getLast_map, beq_iff_eq] at dot
  exact last (by rw [eq_of_toLower dot (by decide)]; rfl)

/-- A plain text with no colon, or with several, has no port. -/
theorem Plain.withoutPort (plain : Plain text) (colons : ':' ∉ text ∨ 2 ≤ text.count ':')
    (raw : Text) :
    withoutPort raw text = .ok text := by
  unfold ExecPolicy.withoutPort
  rw [if_neg]
  · cases split : Text.rsplitOnce ':' text with
    | none => rfl
    | some parts =>
      simp only [Option.map_some, Option.getD_some]
      rcases colons with none | several
      · rw [Text.rsplitOnce_eq_none none] at split
        cases split
      · rw [if_pos (by simpa using Text.mem_of_rsplitOnce several split)]
  · intro bracket
    exact plain.not_mem (by decide : '[' ∈ _) (List.mem_of_mem_head? bracket)

/-- A plain text with no colon, or with several, goes to the last step as it is. -/
theorem Plain.normalize (plain : Plain text) (colons : ':' ∉ text ∨ 2 ≤ text.count ':') :
    normalizeNetworkRuleHost codec text = canonicalHost codec false text := by
  have trimmed : Text.trim text = text :=
    Text.trim_of_visible fun c member => (plain.2 c member).2.1
  have slash : '/' ∉ text := plain.not_mem (by decide)
  have question : '?' ∉ text := plain.not_mem (by decide)
  have hash : '#' ∉ text := plain.not_mem (by decide)
  have bracket : text.head? ≠ some '[' := fun head =>
    plain.not_mem (by decide : '[' ∈ _) (List.mem_of_mem_head? head)
  have scheme : ¬ [':', '/', '/'] <:+: text := fun within => slash (within.subset (by decide))
  unfold normalizeNetworkRuleHost
  simp only [trimmed, plain.1, if_false]
  rw [if_neg (by simp [scheme, slash, question, hash]), plain.withoutPort colons,
    decide_eq_false bracket]
  rfl

theorem Plain.canonicalHost_literal (plain : Plain text) (colon : ':' ∈ text) :
    canonicalHost codec false text = canonicalIpv6 codec false text := by
  have same : lowered false text = text := by
    rw [lowered, if_pos (by simpa using colon), plain.map_toLower]
  unfold canonicalHost
  simp only [same, plain.checkHost, Bool.false_or, List.contains_iff_mem, colon, if_true]
  rfl

theorem Plain.canonicalHost_name (plain : Plain text) (colon : ':' ∉ text)
    (dotless : text.rdropWhile (· == '.') = text) :
    canonicalHost codec false text = .ok ((printedIp codec text).getD text) := by
  have same : lowered false text = text := by
    rw [lowered, if_neg (by simpa using colon), dotless, plain.map_toLower]
  unfold canonicalHost
  simp only [same, plain.checkHost, Bool.false_or, List.contains_iff_mem, colon, if_false]
  rfl

variable {codec}

/-- The literal that is returned. -/
theorem canonicalIpv6_shape {normalized : Text} (plain : Plain normalized)
    (canonical : canonicalIpv6 codec bracketed normalized = .ok result) :
    ∃ ip suffix, result = codec.print6 ip ++ suffix ∧
      (suffix = [] ∨ ∃ scope, suffix = '%' :: scope ∧ Plain scope ∧ '%' ∉ scope) := by
  obtain ⟨⟨literal, scope⟩, isSplit, parsed⟩ := Hoare.bind_ok.mp canonical
  have isScope : scope = none ∨ ∃ inner, scope = some inner ∧ Plain inner ∧ '%' ∉ inner := by
    have inside : ∀ parts, (if bracketed = true then
          (Text.splitOnce ['%', '2', '5'] normalized).or (Text.splitOnce ['%'] normalized)
        else Text.splitOnce ['%'] normalized) = some parts →
        ∀ c ∈ parts.2, c ∈ normalized := by
      intro parts found c member
      have whole : ∃ marker, normalized = parts.1 ++ marker ++ parts.2 := by
        split at found
        · rcases Option.or_eq_some_iff.mp found with escaped | ⟨-, plainly⟩
          · exact ⟨_, Text.splitOnce_eq_append escaped⟩
          · exact ⟨_, Text.splitOnce_eq_append plainly⟩
        · exact ⟨_, Text.splitOnce_eq_append found⟩
      obtain ⟨marker, whole⟩ := whole
      rw [whole]
      exact List.mem_append_right _ member
    revert isSplit inside
    generalize (if bracketed = true then
        (Text.splitOnce ['%', '2', '5'] normalized).or (Text.splitOnce ['%'] normalized)
      else Text.splitOnce ['%'] normalized) = found
    intro isSplit inside
    cases found with
    | none =>
      cases isSplit
      exact .inl rfl
    | some parts =>
      simp only [Option.map_some, Option.getD_some] at isSplit
      split at isSplit
      next checks =>
        cases isSplit
        simp only [Bool.and_eq_true, decide_eq_true_eq, Bool.not_eq_true', List.contains_eq_mem,
          decide_eq_false_iff_not] at checks
        exact .inr ⟨parts.2, rfl, ⟨checks.1, fun c member =>
          plain.2 c (inside parts rfl c member)⟩, checks.2⟩
      next => cases isSplit
  cases isIp : codec.parse6 literal with
  | none =>
    rw [isIp] at parsed
    cases parsed
  | some ip =>
    rw [isIp] at parsed
    cases parsed
    rcases isScope with rfl | ⟨inner, rfl, plainInner, apart⟩
    · exact ⟨ip, [], rfl, .inl rfl⟩
    · exact ⟨ip, '%' :: inner, rfl, .inr ⟨inner, rfl, plainInner, apart⟩⟩

section Lawful

variable (lawful : codec.Lawful)

include lawful

theorem plain_print6 (ip : codec.V6) : Plain (codec.print6 ip) := by
  constructor
  · intro empty
    have colons := lawful.print6_colons ip
    rw [empty] at colons
    exact absurd colons (by decide)
  intro c member
  have digits : ∀ c ∈ ':' :: '.' :: 'a' :: 'b' :: 'c' :: 'd' :: 'e' :: 'f' :: DIGITS,
      PlainChar c := by
    simp only [DIGITS, List.forall_mem_cons, List.not_mem_nil, false_imp_iff, implies_true]
    and_intros <;> decide
  exact digits c (lawful.print6_chars ip c member)

theorem percent_not_mem_print6 (ip : codec.V6) : '%' ∉ codec.print6 ip :=
  fun member => absurd (lawful.print6_chars ip _ member) (by decide)

/-- A printed address, alone or with a scope, is returned as it is. -/
theorem normalize_literal (ip : codec.V6) {suffix : Text}
    (shape : suffix = [] ∨ ∃ scope, suffix = '%' :: scope ∧ Plain scope ∧ '%' ∉ scope) :
    normalizeNetworkRuleHost codec (codec.print6 ip ++ suffix) =
      .ok (codec.print6 ip ++ suffix) := by
  have front := plain_print6 lawful ip
  have plain : Plain (codec.print6 ip ++ suffix) := by
    refine ⟨List.append_ne_nil_of_left_ne_nil front.1 _, fun c member => ?_⟩
    rcases List.mem_append.mp member with early | late
    · exact front.2 c early
    · rcases shape with rfl | ⟨scope, rfl, plainScope, -⟩
      · cases late
      · rcases List.mem_cons.mp late with rfl | inside
        · decide
        · exact plainScope.2 c inside
  have colons : 2 ≤ (codec.print6 ip ++ suffix).count ':' := by
    rw [List.count_append]
    exact Nat.le_add_right_of_le (lawful.print6_colons ip)
  have colon : ':' ∈ codec.print6 ip ++ suffix := List.count_pos_iff.mp (by omega)
  rw [plain.normalize codec (.inr colons), plain.canonicalHost_literal codec colon]
  unfold canonicalIpv6
  rcases shape with rfl | ⟨scope, rfl, plainScope, apart⟩
  · rw [List.append_nil, if_neg Bool.false_ne_true,
      Text.splitOnce_eq_none (percent_not_mem_print6 lawful ip)]
    simp only [Option.map_none, Option.getD_none, Except.bind, lawful.parse6_print6,
      Option.map_some, Option.getD_some, List.append_nil]
  · rw [if_neg Bool.false_ne_true, Text.splitOnce_append (percent_not_mem_print6 lawful ip)]
    simp [Except.bind, lawful.parse6_print6, plainScope.1, apart]

/-- A name that is no address is returned as it is, and so is a printed address. -/
theorem normalize_name (plain : Plain text) (colon : ':' ∉ text)
    (dotless : text.rdropWhile (· == '.') = text)
    (printed : (printedIp codec text).getD text = result) :
    normalizeNetworkRuleHost codec result = .ok result := by
  cases four : codec.parse4 text with
  | some ip =>
    have same : result = codec.print4 ip := by rw [← printed, printedIp, four]; rfl
    have digits : ∀ c ∈ '.' :: DIGITS, PlainChar c ∧ c ≠ ':' := by
      simp only [DIGITS, List.forall_mem_cons, List.not_mem_nil, false_imp_iff, implies_true]
      and_intros <;> decide
    obtain ⟨front, last, shape, notDot⟩ := lawful.print4_last ip
    have plainIp : Plain (codec.print4 ip) :=
      ⟨by rw [shape]; simp, fun c member => (digits c (lawful.print4_chars ip c member)).1⟩
    have apart : ':' ∉ codec.print4 ip :=
      fun member => (digits _ (lawful.print4_chars ip _ member)).2 rfl
    rw [same, plainIp.normalize codec (.inl apart), plainIp.canonicalHost_name codec apart,
      printedIp, lawful.parse4_print4]
    · rfl
    · rw [shape, List.rdropWhile_concat_neg]
      simpa using notDot
  | none =>
    cases six : codec.parse6 text with
    | some ip =>
      have same : result = codec.print6 ip := by rw [← printed, printedIp, four, six]; rfl
      have again := normalize_literal lawful ip (.inl rfl)
      rwa [List.append_nil, ← same] at again
    | none =>
      have same : result = text := by rw [← printed, printedIp, four, six]; rfl
      rw [same, plain.normalize codec (.inl colon), plain.canonicalHost_name codec colon dotless,
        printedIp, four, six]
      rfl

/-- **Normalisation is a projection.** -/
theorem normalizeNetworkRuleHost_idempotent {raw : Text}
    (accepted : normalizeNetworkRuleHost codec raw = .ok result) :
    normalizeNetworkRuleHost codec result = .ok result := by
  unfold normalizeNetworkRuleHost at accepted
  simp only at accepted
  split at accepted
  next => cases accepted
  split at accepted
  next => cases accepted
  next clear =>
    simp only [Bool.or_eq_true, decide_eq_true_eq, List.contains_iff_mem, not_or] at clear
    obtain ⟨inner, taken, canonical⟩ := Hoare.bind_ok.mp accepted
    have subset := withoutPort_subset taken
    generalize decide ((Text.trim raw).head? = some '[') = bracketed at canonical
    unfold canonicalHost at canonical
    obtain ⟨⟨⟩, checked, canonical⟩ := Hoare.bind_ok.mp canonical
    have plain := plain_lowered checked fun c member => ?_
    · split at canonical
      next literal =>
        obtain ⟨ip, suffix, rfl, shape⟩ := canonicalIpv6_shape plain canonical
        exact normalize_literal lawful ip shape
      next name =>
        simp only [Bool.or_eq_true, List.contains_iff_mem, not_or, Bool.not_eq_true] at name
        obtain ⟨rfl, colon⟩ := name
        cases canonical
        exact normalize_name lawful plain colon (lowered_dotless colon) rfl
    have inside := subset c member
    refine ⟨?_, ?_, ?_⟩
    · rintro rfl
      exact clear.1.1.2 inside
    · rintro rfl
      exact clear.1.2 inside
    · rintro rfl
      exact clear.2 inside

end Lawful

end Hosts

/-- What the loop of `compiled_network_domains` accumulates. -/
structure CompiledDomains where
  allowed : List Text
  denied : List Text
  seen : Finset Text

/-- One round, over the rules from the last to the first (`policy.rs:178`). -/
def compileRule (domains : CompiledDomains) (rule : NetworkRule) : CompiledDomains :=
  if rule.decision = .prompt ∨ rule.host ∈ domains.seen then domains
  else
    let seen := insert rule.host domains.seen
    match rule.decision with
    | .allow => { domains with allowed := domains.allowed ++ [rule.host], seen }
    | .forbidden => { domains with denied := domains.denied ++ [rule.host], seen }
    | .prompt => { domains with seen }

/-- `compiled_network_domains` (`policy.rs:173`). -/
def Policy.compiledNetworkDomains {AbsolutePathBuf : Type} (policy : Policy AbsolutePathBuf) :
    List Text × List Text :=
  let domains := policy.networkRules.reverse.foldl compileRule ⟨[], [], ∅⟩
  (domains.allowed.reverse, domains.denied.reverse)

/-- A rule decides its host, unless it prompts. -/
def DecidesHost (host : Text) (rule : NetworkRule) : Prop := rule.host = host ∧ rule.decision ≠ .prompt

instance (host : Text) (rule : NetworkRule) : Decidable (DecidesHost host rule) :=
  inferInstanceAs (Decidable (_ ∧ _))

/-- The decision of the first rule in a list that decides a host. -/
def firstDecision (rules : List NetworkRule) (host : Text) : Option Decision :=
  (rules.find? (DecidesHost host)).map NetworkRule.decision

/-- The decision of the last rule that decides a host. -/
def lastDecision (rules : List NetworkRule) (host : Text) : Option Decision :=
  firstDecision rules.reverse host

/-- The lists hold the hosts of the visited rules by their first decisions. -/
structure Compiled (visited : List NetworkRule) (domains : CompiledDomains) : Prop where
  allowed : ∀ host, host ∈ domains.allowed ↔ firstDecision visited host = some .allow
  denied : ∀ host, host ∈ domains.denied ↔ firstDecision visited host = some .forbidden
  seen : ∀ host, host ∈ domains.seen ↔ firstDecision visited host ≠ none
  nodup : domains.allowed.Nodup ∧ domains.denied.Nodup

theorem firstDecision_concat (visited : List NetworkRule) (rule : NetworkRule) (host : Text) :
    firstDecision (visited ++ [rule]) host =
      (firstDecision visited host).or
        (if DecidesHost host rule then some rule.decision else none) := by
  rw [firstDecision, List.find?_append, Option.map_or, firstDecision]
  congr 1
  by_cases decides : DecidesHost host rule <;> simp [decides]

theorem compileRule_compiled {visited : List NetworkRule} {domains : CompiledDomains}
    (compiled : Compiled visited domains) (rule : NetworkRule) :
    Compiled (visited ++ [rule]) (compileRule domains rule) := by
  by_cases skipped : rule.decision = .prompt ∨ rule.host ∈ domains.seen
  · have same : ∀ host, firstDecision (visited ++ [rule]) host = firstDecision visited host := by
      intro host
      rw [firstDecision_concat]
      by_cases decides : DecidesHost host rule
      · obtain ⟨rfl, notPrompt⟩ := decides
        have seen := (compiled.seen rule.host).mp (skipped.resolve_left notPrompt)
        obtain ⟨decision, found⟩ := Option.ne_none_iff_exists'.mp seen
        rw [found, Option.some_or]
      · rw [if_neg decides, Option.or_none]
    rw [compileRule, if_pos skipped]
    refine ⟨fun host => ?_, fun host => ?_, fun host => ?_, compiled.nodup⟩
    · rw [same, compiled.allowed]
    · rw [same, compiled.denied]
    · rw [same, compiled.seen]
  · obtain ⟨notPrompt, notSeen⟩ := not_or.mp skipped
    have unknown : firstDecision visited rule.host = none := by
      by_contra known
      exact notSeen ((compiled.seen _).mpr known)
    have new : ∀ host, firstDecision (visited ++ [rule]) host =
        if host = rule.host then some rule.decision else firstDecision visited host := by
      intro host
      rw [firstDecision_concat]
      by_cases same : host = rule.host
      · rw [same, unknown, if_pos ⟨rfl, notPrompt⟩, if_pos rfl, Option.none_or]
      · rw [if_neg same, if_neg (fun decides => same decides.1.symm), Option.or_none]
    have notAllowed : rule.host ∉ domains.allowed := by
      rw [compiled.allowed, unknown]
      simp
    have notDenied : rule.host ∉ domains.denied := by
      rw [compiled.denied, unknown]
      simp
    rw [compileRule, if_neg skipped]
    cases decision : rule.decision with
    | prompt => exact absurd decision notPrompt
    | allow =>
      rw [decision] at new
      refine ⟨fun host => ?_, fun host => ?_, fun host => ?_, ?_, compiled.nodup.2⟩
      · grind [compiled.allowed host]
      · grind [compiled.denied host]
      · grind [compiled.seen host]
      · grind [compiled.nodup]
    | forbidden =>
      rw [decision] at new
      refine ⟨fun host => ?_, fun host => ?_, fun host => ?_, compiled.nodup.1, ?_⟩
      · grind [compiled.allowed host]
      · grind [compiled.denied host]
      · grind [compiled.seen host]
      · grind [compiled.nodup]

/-- **Each host is in the list of its last decision.** -/
theorem compiledNetworkDomains_last {AbsolutePathBuf : Type} (policy : Policy AbsolutePathBuf)
    (host : Text) :
    (host ∈ policy.compiledNetworkDomains.1 ↔
      lastDecision policy.networkRules host = some .allow) ∧
    (host ∈ policy.compiledNetworkDomains.2 ↔
      lastDecision policy.networkRules host = some .forbidden) ∧
    policy.compiledNetworkDomains.1.Nodup ∧ policy.compiledNetworkDomains.2.Nodup := by
  have compiled : ∀ visited rules domains, Compiled visited domains →
      Compiled (visited ++ rules) (rules.foldl compileRule domains) := by
    intro visited rules
    induction rules generalizing visited with
    | nil =>
      intro domains compiled
      rwa [List.append_nil]
    | cons rule rules ih =>
      intro domains compiled
      have next := ih _ _ (compileRule_compiled compiled rule)
      rwa [List.append_assoc] at next
  have start : Compiled [] ⟨[], [], ∅⟩ := by
    constructor <;> simp [firstDecision]
  have whole := compiled [] policy.networkRules.reverse _ start
  rw [List.nil_append] at whole
  refine ⟨?_, ?_, List.nodup_reverse.mpr whole.nodup.1, List.nodup_reverse.mpr whole.nodup.2⟩
  · rw [lastDecision, ← whole.allowed, Policy.compiledNetworkDomains, List.mem_reverse]
  · rw [lastDecision, ← whole.denied, Policy.compiledNetworkDomains, List.mem_reverse]

/-- **Hosts have one normal form, and one list.** -/
theorem networkHosts_function {codec : AddressCodec} (lawful : codec.Lawful) :
    (∀ raw result, normalizeNetworkRuleHost codec raw = .ok result →
      normalizeNetworkRuleHost codec result = .ok result) ∧
    ∀ (AbsolutePathBuf : Type) (policy : Policy AbsolutePathBuf) (host : Text),
      (host ∈ policy.compiledNetworkDomains.1 ↔
        lastDecision policy.networkRules host = some .allow) ∧
      (host ∈ policy.compiledNetworkDomains.2 ↔
        lastDecision policy.networkRules host = some .forbidden) ∧
      policy.compiledNetworkDomains.1.Nodup ∧ policy.compiledNetworkDomains.2.Nodup ∧
      ¬ (host ∈ policy.compiledNetworkDomains.1 ∧ host ∈ policy.compiledNetworkDomains.2) := by
  refine ⟨fun _ _ => normalizeNetworkRuleHost_idempotent lawful, fun _ policy host => ?_⟩
  obtain ⟨allowed, denied, nodup⟩ := compiledNetworkDomains_last policy host
  refine ⟨allowed, denied, nodup.1, nodup.2, fun both => ?_⟩
  have same := (allowed.mp both.1).symm.trans (denied.mp both.2)
  cases same

/-- The codec of `std` on two addresses. -/
def sampleCodec : AddressCodec where
  V4 := Unit
  V6 := Unit
  parse4 text := if text = ['1', '.', '2', '.', '3', '.', '4'] then some () else none
  print4 _ := ['1', '.', '2', '.', '3', '.', '4']
  parse6 text :=
    if text = [':', ':', '1'] || text = ['0', ':', '0', ':', ':', '1'] then some () else none
  print6 _ := [':', ':', '1']

theorem sampleCodec_lawful : sampleCodec.Lawful where
  parse4_print4 _ := rfl
  parse6_print6 _ := rfl
  print4_chars _ := List.all_iff_forall_prop.mp
    (show ['1', '.', '2', '.', '3', '.', '4'].all (· ∈ '.' :: DIGITS) from by decide)
  print4_last _ := ⟨['1', '.', '2', '.', '3', '.'], '4', rfl, by decide⟩
  print6_chars _ := List.all_iff_forall_prop.mp (show [':', ':', '1'].all
    (· ∈ ':' :: '.' :: 'a' :: 'b' :: 'c' :: 'd' :: 'e' :: 'f' :: DIGITS) from by decide)
  print6_colons _ := show 2 ≤ [':', ':', '1'].count ':' by decide

/-- An address with an escaped scope and a port. -/
theorem scopedAddress_normalized :
    normalizeNetworkRuleHost sampleCodec "::1%eth0".toList = .ok "::1%eth0".toList :=
  (networkHosts_function sampleCodec_lawful).1 "[0:0::1%25ETH0]:80".toList "::1%eth0".toList
    (by decide +kernel)

end Codex.ExecPolicy
