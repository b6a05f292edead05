import HeirsOcr.AddressText

/-!
# The destination guard of outbound webhooks

`isBlockedAddress` works on the text of an address: ranges over the octets of an IPv4
address, regular expressions over the characters of an IPv6 address. `assertSafeWebhookUrl`
puts a URL's host to it, an IP literal as it stands and a name through a lookup. Parsing a
URL is a parameter, and so is each lookup's answer.
-/
namespace HeirsOcr.UrlGuard
open JsText AddressText

/-- The ranges of `isBlockedV4`, over the first two octets. -/
def blockedOctets (a b : ℕ) : Bool :=
  if a = 0 then true
  else if a = 10 then true
  else if a = 127 then true
  else if a = 169 ∧ b = 254 then true
  else if a = 172 ∧ 16 ≤ b ∧ b ≤ 31 then true
  else if a = 192 ∧ b = 168 then true
  else if a = 192 ∧ b = 0 then true
  else if a = 100 ∧ 64 ≤ b ∧ b ≤ 127 then true
  else if a = 198 ∧ (b = 18 ∨ b = 19) then true
  else if 224 ≤ a then true
  else false

/-- `Number` of a text of digits; the guard's callers pass no other. -/
def number (o : List Char) : Option ℕ := if o.all isDigit then some (decValue o) else none

def isBlockedV4 (ip : List Char) : Bool :=
  match (ip.splitOn '.').map number with
  | [some a, some b, some c, some d] =>
    if 255 < a ∨ 255 < b ∨ 255 < c ∨ 255 < d then true else blockedOctets a b
  | _ => true

/-- `/\d+\.\d+\.\d+\.\d+/` on a whole text. -/
def isDottedDigits (t : List Char) : Bool :=
  let parts := t.splitOn '.'
  parts.length = 4 && parts.all fun o => o ≠ [] && o.all isDigit

/-- The group of `/^::(?:ffff:)?(\d+\.\d+\.\d+\.\d+)$/`. -/
def mapped (ip : List Char) : Option (List Char) :=
  match ip with
  | ':' :: ':' :: 'f' :: 'f' :: 'f' :: 'f' :: ':' :: quad =>
    if isDottedDigits quad then some quad else none
  | ':' :: ':' :: quad => if isDottedDigits quad then some quad else none
  | _ => none

/-- `/^f[cd]/`, the unique local addresses. -/
def matchesUniqueLocal (ip : List Char) : Bool :=
  ip[0]? = some 'f' && (ip[1]? = some 'c' || ip[1]? = some 'd')

/-- `/^fe[89ab]/`, the link-local addresses. -/
def matchesLinkLocal (ip : List Char) : Bool :=
  ip[0]? = some 'f' && ip[1]? = some 'e' &&
    (ip[2]? = some '8' || ip[2]? = some '9' || ip[2]? = some 'a' || ip[2]? = some 'b')

/-- `/^ff/`, the multicast addresses. -/
def matchesMulticast (ip : List Char) : Bool := ip[0]? = some 'f' && ip[1]? = some 'f'

/-- `.replace(/^\[|\]$/g, "")`. -/
def stripBrackets (t : List Char) : List Char :=
  let t := if t.head? = some '[' then t.tail else t
  if t.getLast? = some ']' then t.dropLast else t

def isBlockedV6 (raw : List Char) : Bool :=
  let ip := stripBrackets (toLowerCase raw)
  match mapped ip with
  | some quad => isBlockedV4 quad
  | none =>
    if ip = [':', ':'] ∨ ip = [':', ':', '1'] then true
    else if matchesUniqueLocal ip then true
    else if matchesLinkLocal ip then true
    else if matchesMulticast ip then true
    else false

/-- Whether an IP literal is one the service must never be aimed at. -/
def isBlockedAddress (ip : List Char) : Bool :=
  let version := isIP ip
  if version = 6 then isBlockedV6 ip
  else if version = 4 then isBlockedV4 ip
  else true

/-- What a name resolves to in one lookup, or the error of that lookup. -/
abbrev Lookup := Except String (List (List Char))

/-- `hostname` is `new URL(raw).hostname`, absent when the URL does not parse. -/
structure Environment where
  NODE_ENV : String
  hostname : String → Option (List Char)

def LOCAL_SUFFIXES : List (List Char) :=
  [".localhost".toList, ".local".toList, ".internal".toList, ".localdomain".toList]

/-- The host of a URL, without brackets and in small letters. -/
def hostOf (hostname : List Char) : List Char := toLowerCase (stripBrackets hostname)

/-- A name that does not resolve is let through; `answer` is the lookup's, if it comes to
one. -/
def assertSafeWebhookUrl (env : Environment) (raw : String) (answer : Lookup) :
    Except String Unit :=
  if env.NODE_ENV ≠ "production" then .ok ()
  else
    match env.hostname raw with
    | none => .error "Webhook URL could not be parsed"
    | some hostname =>
      let host := hostOf hostname
      let name := String.ofList host
      if isIP host ≠ 0 then
        if isBlockedAddress host then
          .error s!"Webhook URLs may not point at {name} — it is not a public address"
        else .ok ()
      else if host = "localhost".toList ∨ LOCAL_SUFFIXES.any (·.isSuffixOf host) then
        .error s!"Webhook URLs may not point at {name}"
      else
        match answer with
        | .error _ => .ok ()
        | .ok addresses =>
          match addresses.find? isBlockedAddress with
          | some blocked =>
            let address := String.ofList blocked
            .error s!"{name} resolves to {address}, which is not a public address"
          | none => .ok ()

/-- On an address the verdict is that of its first two octets. -/
theorem isBlockedV4_of_parseV4 {t : List Char} {a b c d : ℕ}
    (h : parseV4 t = some [a, b, c, d]) : isBlockedV4 t = blockedOctets a b := by
  obtain ⟨-, hoctets, hvalues⟩ := parseV4_eq_some_iff.mp h
  have hle := (parseV4_octets h).2
  simp only [List.mem_cons, List.not_mem_nil, or_false, forall_eq_or_imp, forall_eq] at hle
  have hnumber : (t.splitOn '.').map number = [some a, some b, some c, some d] := by
    have hmap : (t.splitOn '.').map number = ((t.splitOn '.').map decValue).map some := by
      rw [List.map_map]
      refine List.map_congr_left fun o ho => ?_
      have hall : o.all isDigit := List.all_eq_true.mpr (octet_spec (hoctets o ho)).2.1
      simp only [number, hall, if_true, Function.comp_apply]
    rw [hmap, hvalues]
    rfl
  simp only [isBlockedV4, hnumber]
  rw [if_neg (by omega)]

theorem isBlockedAddress_of_parseV4 {t : List Char} {a b c d : ℕ}
    (h : parseV4 t = some [a, b, c, d]) : isBlockedAddress t = blockedOctets a b := by
  simp [isBlockedAddress, isIP_of_parseV4 h, isBlockedV4_of_parseV4 h]

theorem isDottedDigits_of_parseV4 {t : List Char} {octets : List ℕ}
    (h : parseV4 t = some octets) : isDottedDigits t := by
  obtain ⟨hlen, hoctets, -⟩ := parseV4_eq_some_iff.mp h
  simp only [isDottedDigits, hlen, Bool.and_eq_true, List.all_eq_true, decide_eq_true_eq,
    true_and]
  intro o ho
  obtain ⟨hne, hdigits, -⟩ := octet_spec (hoctets o ho)
  exact ⟨by simpa using hne, hdigits⟩

section Passed
variable {env : Environment} {raw : String} {answer : Lookup} {hostname : List Char}

/-- In production a URL passes with an address that is not blocked, or with a name. -/
theorem literal_of_assertSafe (hprod : env.NODE_ENV = "production")
    (hhost : env.hostname raw = some hostname)
    (h : assertSafeWebhookUrl env raw answer = .ok ()) (hip : isIP (hostOf hostname) ≠ 0) :
    isBlockedAddress (hostOf hostname) = false := by
  simp only [assertSafeWebhookUrl, hprod, ne_eq, not_true_eq_false, if_false, hhost] at h
  rw [if_pos hip] at h
  by_contra hblocked
  rw [Bool.not_eq_false] at hblocked
  simp [hblocked] at h

/-- A name whose lookup answered has only addresses that are not blocked. -/
theorem resolved_of_assertSafe {addresses : List (List Char)}
    (hprod : env.NODE_ENV = "production") (hhost : env.hostname raw = some hostname)
    (h : assertSafeWebhookUrl env raw (.ok addresses) = .ok ())
    (hname : isIP (hostOf hostname) = 0) : ∀ a ∈ addresses, isBlockedAddress a = false := by
  simp only [assertSafeWebhookUrl, hprod, ne_eq, not_true_eq_false, if_false, hhost, hname] at h
  split_ifs at h
  split at h
  · cases h
  · rename_i hfind
    intro a ha
    simpa using List.find?_eq_none.mp hfind a ha

end Passed

end HeirsOcr.UrlGuard
