import Tako.ProxySites
import Tako.ConfigTokens

/-! # Validated fields as arguments

What each check of a manifest leaves of the text of a field. URLs and paths are free of the
whitespace the checks name, which is less than the whitespace a lexer splits at. The interval of a
health check is not looked at.
-/
namespace ProxyFields

open List GoPrelude ConfigTokens Bool
open ResourceNames (hasPrefix)
open OperationLeases (isSafeRuntimeName isNameByte)
open ProxyManifests ProxyCaddyfile ProxyClaims ProxySites

def isFieldRune (c : Char) : Bool :=
  isLowerLetter c || isUpperLetter c || isDigit c || c == '-' || c == '.' || c == '_' || c == '@' ||
    c == '*' || c == ':' || c == '/' || c == '$'

variable {c : Char}

theorem fieldRune_code (h : isFieldRune c) : 36 ≤ c.toNat ∧ c.toNat ≤ 122 ∧ c.toNat ≠ 96 := by
  simp only [isFieldRune, isLowerLetter, isUpperLetter, isDigit, or_eq_true, and_eq_true,
    decide_eq_true_eq, Char.le_def, UInt32.le_iff_toNat_le, beq_iff_eq] at h
  rcases h with
    (((((((((hletter | hsign) | hsign) | hsign) | hsign) | hsign) | hsign) | hsign) | hsign))
  · change ((97 ≤ c.toNat ∧ c.toNat ≤ 122) ∨ (65 ≤ c.toNat ∧ c.toNat ≤ 90)) ∨
      (48 ≤ c.toNat ∧ c.toNat ≤ 57) at hletter
    omega
  all_goals
    subst hsign
    decide

theorem fieldRune_isSpace (h : isFieldRune c) : isSpace c = false := by
  have hcode := fieldRune_code h
  simp only [isSpace, or_eq_false_iff, and_eq_false_iff, beq_eq_false_iff_ne,
    decide_eq_false_iff_not]
  omega

theorem ne_of_code (h : c.toNat ≠ d.toNat) : c ≠ d := by
  rintro rfl
  exact h rfl

theorem fieldRune_starts (h : isFieldRune c) :
    startsWord c ∧ isQuote c = false ∧ c ≠ '\x7b' ∧ c ≠ '\x7d' := by
  obtain ⟨hlow, hhigh, htick⟩ := fieldRune_code h
  have hne : ∀ d : Char, d.toNat < 36 ∨ 122 < d.toNat ∨ d.toNat = 96 → c ≠ d := by
    intro d hd
    apply ne_of_code
    omega
  have hquote : isQuote c = false := by
    rw [isQuote, Bool.or_eq_false_iff, beq_eq_false_iff_ne, beq_eq_false_iff_ne]
    exact ⟨hne _ (by decide), hne _ (by decide)⟩
  refine ⟨?_, hquote, hne _ (by decide), hne _ (by decide)⟩
  rw [startsWord, hquote, Bool.or_false, Bool.not_eq_true', beq_eq_false_iff_ne]
  exact hne _ (by decide)

def Unspaced (text : String) : Prop := ∀ c ∈ text.toList, isSpace c = false

instance (text : String) : Decidable (Unspaced text) :=
  decidable_of_iff ((text.toList.all fun c => !isSpace c)) (by simp [Unspaced])

def Opens (text : String) : Prop := ∃ c rest, text.toList = c :: rest ∧ isFieldRune c

theorem atom_iff_unspaced (h : Opens text) : Atom text ↔ Unspaced text := by
  obtain ⟨c, rest, htext, hc⟩ := h
  obtain ⟨hstart, hquote, hopen, hclose⟩ := fieldRune_starts hc
  constructor
  · intro hatom
    apply hatom.unspaced
    intro d hd
    rw [htext] at hd
    obtain rfl : c = d := Option.some.inj hd
    exact hquote
  · intro hspace
    left
    unfold Unspaced at hspace
    rw [htext] at hspace ⊢
    exact Bare.of_start hstart hspace hopen hclose

structure Plain (text : String) : Prop where
  nonempty : text ≠ ""
  runes : ∀ c ∈ text.toList, isFieldRune c

instance (text : String) : Decidable (Plain text) :=
  decidable_of_iff (text ≠ "" ∧ text.toList.all isFieldRune)
    ⟨fun h => ⟨h.1, all_eq_true.mp h.2⟩, fun h => ⟨h.nonempty, all_eq_true.mpr h.runes⟩⟩

theorem Plain.opens (h : Plain text) : Opens text := by
  cases htext : text.toList with
  | nil => exact absurd (String.toList_eq_nil_iff.mp htext) h.nonempty
  | cons c rest =>
    have hmem := htext ▸ mem_cons_self
    exact ⟨c, rest, htext, h.runes c hmem⟩

theorem Plain.unspaced (h : Plain text) : Unspaced text :=
  fun c hc => fieldRune_isSpace (h.runes c hc)

theorem Plain.atom (h : Plain text) : Atom text := (atom_iff_unspaced h.opens).mpr h.unspaced

theorem Plain.append (ha : Plain a) (hb : ∀ c ∈ b.toList, isFieldRune c) : Plain (a ++ b) := by
  constructor
  · intro h
    have hnil := congrArg String.toList h
    rw [String.toList_append] at hnil
    exact ha.nonempty (String.toList_eq_nil_iff.mp (append_eq_nil_iff.mp hnil).1)
  · intro c hc
    rw [String.toList_append] at hc
    rcases mem_append.mp hc with hc | hc
    · exact ha.runes c hc
    · exact hb c hc

theorem Plain.append_unspaced (ha : Plain a) (hb : Unspaced b) : Atom (a ++ b) := by
  obtain ⟨c, rest, htext, hc⟩ := ha.opens
  refine (atom_iff_unspaced ⟨c, rest ++ b.toList, ?_, hc⟩).mpr ?_
  · rw [String.toList_append, htext, cons_append]
  · intro d hd
    rw [String.toList_append] at hd
    rcases mem_append.mp hd with hd | hd
    · exact ha.unspaced d hd
    · exact hb d hd

theorem plain_of_all (hp : ∀ c, p c → isFieldRune c) (hne : text ≠ "") (h : (chars text).all p) :
    Plain text := by
  refine ⟨hne, fun c hc => hp c ?_⟩
  rw [chars_eq_toList] at h
  exact all_eq_true.mp h c hc

theorem fieldRune_of_nameByte (c : Char) (h : isNameByte c) : isFieldRune c := by
  simp only [isNameByte, or_eq_true] at h
  simp only [isFieldRune, or_eq_true]
  tauto

theorem plain_of_runtimeName (h : isSafeRuntimeName name) : Plain name := by
  simp only [isSafeRuntimeName, and_eq_true, decide_eq_true_eq] at h
  refine plain_of_all fieldRune_of_nameByte ?_ h.2
  rintro rfl
  exact h.1.1 rfl

def isHostTextRune (c : Char) : Bool := isHostRune c || c == '.' || c == '*'

theorem fieldRune_of_hostTextRune (h : isHostTextRune c) : isFieldRune c := by
  simp only [isHostTextRune, isHostRune, or_eq_true] at h
  simp only [isFieldRune, or_eq_true]
  tauto

theorem runtimeHost_runes (h : isSafeRuntimeHost value) : ∀ c ∈ value.toList, isHostTextRune c := by
  simp only [isSafeRuntimeHost, and_eq_true] at h
  intro c hc
  -- A character is the separator or stands in one of the labels.
  have hjoined : c ∈ ['.'].intercalate (value.toList.splitOn '.') := by
    rw [intercalate_splitOn]
    exact hc
  rcases SeparatedWords.mem_intercalate hjoined with rfl | ⟨label, hlabel, hmem⟩
  · decide
  · have hsafe := all_eq_true.mp h.2 (String.ofList label) (by
      rw [split, chars_eq_toList]
      exact mem_map_of_mem hlabel)
    simp only [isSafeHostLabel, and_eq_true, chars_eq_toList, String.toList_ofList] at hsafe
    have hrune := all_eq_true.mp hsafe.1.1.2 c hmem
    rw [isHostTextRune, hrune]
    rfl

theorem toList_of_hasPrefix (h : hasPrefix value start) :
    value.toList = start.toList ++ (trimPrefix value start).toList := by
  rw [trimPrefix, if_pos h, String.toList_ofList, chars_eq_toList, chars_eq_toList]
  rw [hasPrefix, chars_eq_toList, chars_eq_toList, isPrefixOf_iff_prefix] at h
  obtain ⟨rest, hrest⟩ := h
  rw [← hrest, drop_left]

theorem proxyHost_runes (h : isSafeProxyHost value) : ∀ c ∈ value.toList, isHostTextRune c := by
  unfold isSafeProxyHost at h
  split_ifs at h with hempty hwildcard hstar
  · simp only [and_eq_true] at h
    intro c hc
    rw [toList_of_hasPrefix hwildcard] at hc
    rcases mem_append.mp hc with hc | hc
    · have hstart : ∀ d ∈ "*.".toList, isHostTextRune d := all_eq_true.mp (by decide)
      exact hstart c hc
    · exact runtimeHost_runes h.2 c hc
  · exact runtimeHost_runes h

theorem plain_of_proxyHost (h : isSafeProxyHost value) : Plain value :=
  ⟨isSafeProxyHost_ne_empty h, fun c hc => fieldRune_of_hostTextRune (proxyHost_runes h c hc)⟩

theorem plain_of_basicAuthUser (h : isSafeProxyBasicAuthUser value) : Plain value := by
  simp only [isSafeProxyBasicAuthUser, and_eq_true, decide_eq_true_eq] at h
  refine plain_of_all ?_ h.1.1 h.2
  intro c hc
  simp only [or_eq_true] at hc
  simp only [isFieldRune, or_eq_true]
  tauto

theorem fieldRune_of_bcryptRune (h : isBcryptRune c) : isFieldRune c := by
  simp only [isBcryptRune, or_eq_true] at h
  simp only [isFieldRune, or_eq_true]
  tauto

theorem fieldRune_of_digit (h : isDigit c) : isFieldRune c := by
  simp only [isFieldRune, h, Bool.or_true, Bool.true_or]

theorem plain_of_bcryptHash (h : isSafeProxyBcryptHash value) : Plain value := by
  unfold isSafeProxyBcryptHash at h
  split at h
  · next minor tens ones rest hchars =>
    simp only [and_eq_true, or_eq_true, beq_iff_eq] at h
    obtain ⟨⟨⟨⟨hminor, htens⟩, hones⟩, -⟩, hrest⟩ := h
    rw [chars_eq_toList] at hchars
    constructor
    · rintro rfl
      cases hchars
    · intro c hc
      rw [hchars] at hc
      have hminorRune : isFieldRune minor := by
        rcases hminor with (rfl | rfl) | rfl <;> decide
      simp only [mem_cons] at hc
      rcases hc with rfl | rfl | rfl | rfl | rfl | rfl | rfl | hc
      · decide
      · decide
      · exact hminorRune
      · decide
      · exact fieldRune_of_digit htens
      · exact fieldRune_of_digit hones
      · decide
      · exact fieldRune_of_bcryptRune (all_eq_true.mp hrest c hc)
  · cases h

theorem fieldRune_of_addressRune (h : isAddressRune c) : isFieldRune c := by
  simp only [isAddressRune, Bool.or_eq_true, Bool.and_eq_true, decide_eq_true_eq] at h
  rcases h with ((((hdigit | hlower) | hupper) | hdot) | hcolon) | hslash
  · exact fieldRune_of_digit hdigit
  · have hle : isLowerLetter c := by
      simp only [isLowerLetter, Bool.and_eq_true, decide_eq_true_eq]
      exact ⟨hlower.1, hlower.2.trans (by decide)⟩
    simp only [isFieldRune, hle, Bool.true_or]
  · have hle : isUpperLetter c := by
      simp only [isUpperLetter, Bool.and_eq_true, decide_eq_true_eq]
      exact ⟨hupper.1, hupper.2.trans (by decide)⟩
    simp only [isFieldRune, hle, Bool.or_true, Bool.true_or]
  all_goals simp only [isFieldRune, *, Bool.or_true, Bool.true_or]

theorem plain_of_allowIP (documented : Documented P) (h : isSafeProxyAllowIP P value) :
    Plain value := by
  unfold isSafeProxyAllowIP at h
  split_ifs at h with hempty hslash
  · exact ⟨fun heq => hempty (.inr heq),
      fun c hc => fieldRune_of_addressRune (documented.cidr h c hc)⟩
  · exact ⟨fun heq => hempty (.inr heq),
      fun c hc => fieldRune_of_addressRune (documented.ip h c hc)⟩

theorem plain_of_trustedProxy (documented : Documented P) (h : isSafeTrustedProxyPrefix P value) :
    Plain value := by
  unfold isSafeTrustedProxyPrefix at h
  split_ifs at h with hempty
  cases hrange : P.parseRange value with
  | none =>
    rw [hrange] at h
    cases h
  | some range =>
    exact ⟨fun heq => hempty (.inr heq),
      fun c hc => fieldRune_of_addressRune (documented.range hrange c hc)⟩

theorem opens_of_upstreamURL (documented : Documented P)
    (h : validateProxyUpstreamURL P value = .ok ()) : Opens value := by
  simp only [validateProxyUpstreamURL, bind_eq_ok, require_eq_ok] at h
  obtain ⟨_, -, parsed, hparsed, _, hscheme, -⟩ := h
  have hnamed : ∃ rest, parsed.scheme.toList = 'h' :: rest := by
    rcases hscheme with hscheme | hscheme <;> rw [hscheme] <;> exact ⟨_, rfl⟩
  obtain ⟨name, hname⟩ := hnamed
  have hne : parsed.scheme ≠ "" := by
    intro hempty
    rw [hempty] at hname
    cases hname
  obtain ⟨scheme, rest, hvalue, hlower⟩ := documented.scheme hparsed hne
  rw [hname] at hlower
  cases scheme with
  | nil => cases hlower
  | cons c scheme =>
    refine ⟨c, scheme ++ ':' :: rest, hvalue, ?_⟩
    -- Only the letter itself and its capital fold to it.
    have hcode := toLower_toNat c
    rw [(cons.inj hlower).1] at hcode
    have hcases : c = 'h' ∨ c = 'H' := by
      change 104 = _ at hcode
      split_ifs at hcode with hupper
      · exact .inr (Char.toNat_inj.mp (by change c.toNat = 72; omega))
      · exact .inl (Char.toNat_inj.mp (by change c.toNat = 104; omega))
    rcases hcases with rfl | rfl <;> decide

theorem opens_of_httpPath (h : isSafeHTTPPath value) : Opens value := by
  simp only [isSafeHTTPPath, and_eq_true] at h
  exact ⟨'/', _, toList_of_hasPrefix h.1, by decide⟩

theorem plain_certPath (certificate : ProxyCertificateEntry) :
    Plain certificate.certPath ∧ Plain certificate.keyPath := by
  have hroot : Plain "/var/lib/tako/certs/.versions/" := by decide
  have hversion : ∀ c ∈ certificate.version.toList, isFieldRune c := by
    intro c hc
    have hnum := certificate.numbered
    rw [chars_eq_toList] at hnum
    exact fieldRune_of_digit (all_eq_true.mp hnum c hc)
  have hdir := ((hroot.append (plain_of_proxyHost certificate.named).runes).append
    (show Plain "-" by decide).runes).append hversion
  exact ⟨hdir.append (show Plain "/cert.pem" by decide).runes,
    hdir.append (show Plain "/key.pem" by decide).runes⟩

theorem plain_routeAddress (h : isSafeProxyHost host) (route : ProxyRoute) :
    Plain (caddyRouteAddress host route) := by
  have hhost := plain_of_proxyHost h
  unfold caddyRouteAddress
  split_ifs
  · have hscheme : Plain "http://" := by decide
    exact hscheme.append hhost.runes
  · exact hhost

theorem trimPrefix_scheme (h : isSafeProxyHost host) (hcolon : ':' ∈ start.toList) :
    trimPrefix host start = host := by
  refine if_neg fun hstart => ?_
  have hmem : ':' ∈ host.toList := by
    rw [toList_of_hasPrefix hstart]
    exact mem_append_left _ hcolon
  exact absurd (proxyHost_runes h ':' hmem) (by decide)

theorem trimPrefix_append (start host : String) : trimPrefix (start ++ host) start = host := by
  have hstart : hasPrefix (start ++ host) start := by
    rw [hasPrefix, chars_eq_toList, chars_eq_toList, isPrefixOf_iff_prefix, String.toList_append]
    exact prefix_append ..
  have hlist := toList_of_hasPrefix hstart
  rw [String.toList_append, append_cancel_left_eq] at hlist
  exact (String.toList_inj.mp hlist).symm

theorem routeAddress_ne_443 (h : isSafeProxyHost host) : caddyRouteAddress host route ≠ ":443" := by
  unfold caddyRouteAddress
  split_ifs
  · intro heq
    have hlist := congrArg String.toList heq
    rw [String.toList_append] at hlist
    cases hlist
  · rintro rfl
    exact absurd (proxyHost_runes h ':' (by decide)) (by decide)

/-- A health check is sent with the host of the site. -/
theorem healthHost_routeAddress (h : isSafeProxyHost host) (route : ProxyRoute) :
    caddyHealthHost (caddyRouteAddress host route) route = host := by
  unfold caddyHealthHost
  rw [if_pos (routeAddress_ne_443 h)]
  unfold caddyRouteAddress
  split_ifs
  · rw [trimPrefix_append, trimPrefix_scheme h (by decide)]
  · rw [trimPrefix_scheme h (by decide), trimPrefix_scheme h (by decide)]

end ProxyFields
