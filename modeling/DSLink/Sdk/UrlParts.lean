import DSLink.Sdk.Url
import DSLink.Broker.ConnBuffers

/-!
# `Sdk.UrlParts` — the components of an address

What `dslink_url_parse` makes of an address whose components 8 bits can count, as a function of the text, and
`dslink_url_convert_string`, the way back.

## Contents
- `addressUrl`, `parse_short_iff`: the result of the scanner.
- `Parts`, `url_components_iff`: the components of a well-formed address.
- `dslinkUrlConvertString`, `Printable`, `url_print_parse_exact`.
-/

namespace DSLink

namespace Url

/-! ## The result for a short text -/

/-- What is left is the URI. -/
def uriUrl (url : Url) (t : CString) : Url := { url with uri := some (if t = [] then [slash] else t) }

/-- A port, with the URI behind it. At the end of the address the scheme decides. -/
def portUrl (wide : Bool) (url : Url) (t : CString) : Url :=
  if slash ∈ t then uriUrl { url with port := portOf wide (t.takeWhile (· ≠ slash)) } (t.dropWhile (· ≠ slash))
  else handleScheme { url with uri := some [slash] }

/-- What follows a host. -/
def restUrl (wide : Bool) (url : Url) (t : CString) : Url :=
  if t.head? = some 58 then portUrl wide url t.tail else uriUrl (handleScheme url) t

/-- A host with what follows it. -/
def hostUrl (wide : Bool) (url : Url) (t : CString) : Option Url :=
  if t = [] then none
  else some (restUrl wide { url with host := some (t.takeWhile insideHost) } (t.dropWhile insideHost))

/-- A host in brackets with what follows it. A bracket that stays open leaves a URI and no host. -/
def bracketUrl (wide : Bool) (url : Url) (t : CString) : Url :=
  if 93 ∈ t then restUrl wide { url with host := some (t.takeWhile (· ≠ 93)).tail } (t.dropWhile (· ≠ 93)).tail
  else uriUrl url t

/-- An authority with what follows it. -/
def authorityUrl (wide : Bool) (url : Url) (t : CString) : Option Url :=
  if t.head? = some 91 then some (bracketUrl wide url t) else hostUrl wide url t

/-- The variables of the result when the scheme has been read. -/
def schemeUrl (scheme : CString) : Url := handleSchemeForSecure ⟨false, 0, some scheme, none, none⟩

/-- The authority of an address, with what follows it. -/
def authorityOf (address : CString) : CString := (address.dropWhile (· ≠ 58)).tail.dropWhile (· = slash)

/-- An address. -/
def addressUrl (wide : Bool) (address : CString) : Option Url :=
  if 58 ∈ address then authorityUrl wide (schemeUrl (address.takeWhile (· ≠ 58))) (authorityOf address) else none

section

variable {wide : Bool} {s s' r : Scan} {url : Url} {st : State} {t seg rest host : CString} {c : UInt8}
  {result : Option Url}

/-- The loop that begins with `s` ends, and what follows it returns `result`. -/
def Gives (wide : Bool) (s : Scan) (result : Option Url) : Prop := ∃ r, Ends wide s r ∧ finish r = some result

theorem substringCopy_all (h0 : 0 ∉ t) (hlen : t.length ≤ 254) :
    substringCopy t (UInt8.ofNat (t.length + 1)) = some t := by
  rw [substringCopy, toNat_ofNat_le (by omega), if_pos (Nat.le_refl _), List.take_of_length_le (by simp)]
  exact congrArg some (takeWhile_sep h0)

theorem len_le_one (hlen : t.length ≤ 254) : UInt8.ofNat (t.length + 1) ≤ 1 ↔ t = [] := by
  rw [UInt8.le_iff_toNat_le, toNat_ofNat_le (by omega)]
  simp [← List.length_eq_zero_iff]

/-- What follows the loop, where the last component is `t`. -/
def lastUrl (url : Url) (st : State) (t : CString) : Option Url :=
  match st with
  | .scheme => none
  | .host => if t = [] then none else some { handleScheme url with uri := some [slash], host := some t }
  | .port => some (handleScheme { url with uri := some [slash] })
  | .ipv6 | .uri => some (uriUrl url t)

theorem finish_reading (h0 : 0 ∉ t) (hlen : t.length ≤ 254) :
    finish (reading url st t t.length) = some (lastUrl url st t) := by
  rw [reading_end]
  have hcopy := substringCopy_all h0 hlen
  by_cases hnil : t = []
  · subst hnil
    cases st <;> rfl
  · have hlen1 : ¬UInt8.ofNat (t.length + 1) ≤ 1 := mt (len_le_one hlen).mp hnil
    generalize UInt8.ofNat (t.length + 1) = len at hcopy hlen1
    cases st <;> simp [finish, lastUrl, uriUrl, hlen1, hcopy, hnil]

theorem gives_last (h0 : 0 ∉ t) (hlen : t.length ≤ 254)
    (h : ∀ r, Ends wide s r ↔ t.length ≤ 255 ∧ r = reading url st t t.length) :
    Gives wide s result ↔ result = lastUrl url st t := by
  constructor
  · rintro ⟨r, hr, hf⟩
    obtain ⟨-, rfl⟩ := (h r).mp hr
    exact Option.some.inj (hf.symm.trans (finish_reading h0 hlen))
  · rintro rfl
    exact ⟨_, (h _).mpr ⟨Nat.le_succ_of_le hlen, rfl⟩, finish_reading h0 hlen⟩

theorem gives_next {p : Prop} (hp : p) (h : ∀ r, Ends wide s r ↔ p ∧ Ends wide s' r) :
    Gives wide s result ↔ Gives wide s' result := by
  simp only [Gives, h, hp, true_and]

theorem gives_uri (h0 : 0 ∉ t) (hlen : t.length ≤ 254) :
    Gives wide (reading url .uri t 0) result ↔ result = some (uriUrl url t) :=
  gives_last h0 hlen (fun _ => ends_uri h0)

theorem gives_port (h0 : 0 ∉ t) (hlen : t.length ≤ 254) :
    Gives wide (reading url .port t 0) result ↔ result = some (portUrl wide url t) := by
  rcases sep_cases slash t with hno | ⟨seg, rest, rfl, hno⟩
  · rw [gives_last h0 hlen (fun _ => ends_port_last h0 hno), portUrl, if_neg hno]
    rfl
  · rw [List.length_append, List.length_cons] at hlen
    rw [gives_next (show seg.length ≤ 255 by omega) (fun _ => ends_port h0 hno),
      gives_uri (fun h => h0 (List.mem_append_right _ h)) (by rw [List.length_cons]; omega), portUrl,
      if_pos (by simp), takeWhile_sep hno, dropWhile_sep hno]

theorem handleScheme_host : handleScheme { url with host := some host } =
    { handleScheme url with host := some host } := by
  unfold handleScheme
  dsimp only
  split
  · rfl
  · split <;> rfl

theorem gives_host (h0 : 0 ∉ t) (hlen : t.length ≤ 254) :
    Gives wide (reading url .host t 0) result ↔ result = hostUrl wide url t := by
  rcases host_cases t with hno | ⟨seg, c, rest, rfl, hno, hc⟩
  · obtain ⟨hcolon, hslash⟩ := insideHost_mem hno
    rw [gives_last h0 hlen (fun _ => ends_host_last h0 hcolon hslash), hostUrl, List.takeWhile_eq_self_iff.mpr hno,
      List.dropWhile_eq_nil_iff.mpr hno]
    simp [lastUrl, restUrl, uriUrl, handleScheme_host]
  · obtain ⟨hcolon, hslash⟩ := insideHost_mem hno
    obtain ⟨htake, hdrop⟩ := @takeWhile_host seg rest c hno hc
    have h0' : 0 ∉ c :: rest := fun h => h0 (List.mem_append_right _ h)
    rw [List.length_append, List.length_cons] at hlen
    rw [hostUrl, if_neg (by simp), htake, hdrop]
    rcases hc with rfl | rfl
    · rw [gives_next (show seg.length ≤ 255 by omega) (fun _ => ends_host_port h0 hcolon hslash),
        gives_port (fun h => h0' (List.mem_cons_of_mem _ h)) (by omega), restUrl, if_pos List.head?_cons, List.tail_cons]
    · rw [gives_next (show seg.length ≤ 255 by omega) (fun _ => ends_host_uri h0 hcolon hslash),
        gives_uri h0' (by rw [List.length_cons]; omega), restUrl, if_neg (by simp [slash])]

theorem gives_ipv6 (h0 : 0 ∉ 91 :: t) (hlen : (91 :: t).length ≤ 254) :
    Gives wide (reading url .ipv6 (91 :: t) 0) result ↔ result = some (bracketUrl wide url (91 :: t)) := by
  rcases sep_cases 93 t with hno | ⟨seg, rest, rfl, hno⟩
  · have hno' : (93 : UInt8) ∉ 91 :: t := by simp [hno]
    rw [gives_last h0 hlen (fun _ => ends_ipv6_last h0 hno'), bracketUrl, if_neg hno']
    rfl
  · have hno' : (93 : UInt8) ∉ 91 :: seg := by simp [hno]
    have h0' : 0 ∉ rest := fun h => h0 (by simp [h])
    simp only [List.length_cons, List.length_append] at hlen
    rw [bracketUrl, if_pos (by simp)]
    rw [← List.cons_append] at h0 ⊢
    rw [takeWhile_sep hno', dropWhile_sep hno', List.tail_cons, List.tail_cons]
    by_cases hcolon : rest.head? = some 58
    · obtain ⟨rest, rfl⟩ := List.head?_eq_some_iff.mp hcolon
      rw [List.length_cons] at hlen
      rw [gives_next (show seg.length ≤ 254 by omega) (fun _ => ends_ipv6_port h0 hno),
        gives_port (fun h => h0' (List.mem_cons_of_mem _ h)) (by omega), restUrl, if_pos List.head?_cons, List.tail_cons]
    · rw [gives_next (show seg.length ≤ 254 by omega) (fun _ => ends_ipv6_uri h0 hno hcolon),
        gives_uri h0' (by omega), restUrl, if_neg hcolon]

theorem gives_authority (h0 : 0 ∉ t) (hlen : t.length ≤ 254) :
    Gives wide (reading url (authorityState t) t 0) result ↔ result = authorityUrl wide url t := by
  unfold authorityState authorityUrl
  split
  · rename_i hhead
    obtain ⟨t, rfl⟩ := List.head?_eq_some_iff.mp hhead
    exact gives_ipv6 h0 hlen
  · exact gives_host h0 hlen

theorem gives_first (h0 : 0 ∉ t) (hlen : t.length ≤ 253) :
    Gives wide (first t) result ↔ t.head? ≠ some 58 ∧ result = addressUrl wide t := by
  by_cases hhead : t.head? = some 58
  · obtain ⟨t, rfl⟩ := List.head?_eq_some_iff.mp hhead
    rw [List.length_cons] at hlen
    refine iff_of_false ?_ (fun h => h.1 rfl)
    rintro ⟨r, hr, -⟩
    have hlong := (ends_first_colon.mp hr).1
    omega
  · rw [and_iff_right hhead, addressUrl]
    rcases sep_cases 58 t with hno | ⟨seg, rest, rfl, hno⟩
    · rw [if_neg hno]
      by_cases hnil : t = []
      · subst hnil
        constructor
        · rintro ⟨r, hr, hf⟩
          obtain rfl := (ends_done (s := first []) rfl).mp hr
          exact (Option.some.inj hf).symm
        · rintro rfl
          exact ⟨first [], (ends_done rfl).mpr rfl, rfl⟩
      · exact @gives_last _ _ (first t).url .scheme _ _ h0 (by omega) (fun r => by
          rw [ends_first h0 hnil hhead, ends_scheme_last h0 hno])
    · have hfirst : Gives wide (first (seg ++ 58 :: rest)) result ↔
          Gives wide (reading (first (seg ++ 58 :: rest)).url .scheme (seg ++ 58 :: rest) 0) result := by
        simp only [Gives, ends_first h0 (by simp) hhead]
      rw [List.length_append, List.length_cons] at hlen
      have hdrop := (List.dropWhile_suffix (fun c => decide (c = slash)) (l := rest)).length_le
      have htake := (List.takeWhile_prefix (fun c => decide (c = slash)) (l := rest)).length_le
      have hauthority : authority seg rest = rest.dropWhile (· = slash) := if_pos (by omega)
      rw [hfirst, gives_next (show seg.length ≤ 255 by omega) (fun _ => ends_scheme h0 hno),
        gives_authority (zero_notMem_authority h0) (by rw [hauthority]; omega), if_pos (by simp), hauthority,
        takeWhile_sep hno, authorityOf, dropWhile_sep hno]
      rfl

/-- The result of the scanner for an address that 8 bits can count. -/
theorem parse_short_iff {address : CString} (h0 : 0 ∉ address) (hlen : address.length ≤ 253) :
    (∃ fuel, dslinkUrlParse wide fuel address = some result) ↔
      address.head? ≠ some 58 ∧ result = addressUrl wide address := by
  rw [← gives_first h0 hlen]
  constructor
  · rintro ⟨fuel, h⟩
    obtain ⟨r, hr, hf⟩ := Option.bind_eq_some_iff.mp h
    exact ⟨r, ⟨fuel, hr⟩, hf⟩
  · rintro ⟨r, ⟨fuel, hr⟩, hf⟩
    exact ⟨fuel, by rw [dslinkUrlParse, hr]; exact hf⟩

end

/-! ## Well-formed addresses -/

/-- The name of a scheme. -/
def schemeName (secure : Bool) : CString := if secure then cstr "https" else cstr "http"

/-- The default port of a scheme. -/
def defaultPort (secure : Bool) : Nat := if secure then 443 else 80

/-- The host of an address: a name, or an IPv6 text that is written in brackets. -/
inductive Host
  | name (text : CString)
  | ipv6 (text : CString)
  deriving DecidableEq

/-- The text without the brackets. -/
def Host.text : Host → CString
  | .name text | .ipv6 text => text

/-- The host as it stands in the address. -/
def Host.written : Host → CString
  | .name text => text
  | .ipv6 text => 91 :: text ++ [93]

/-- A name has none of ':' '/' '[' ']', and a text in brackets does not close them. -/
def Host.Valid : Host → Prop
  | .name text => 58 ∉ text ∧ slash ∉ text ∧ 91 ∉ text ∧ 93 ∉ text
  | .ipv6 text => 93 ∉ text

instance : DecidablePred Host.Valid
  | .name text => inferInstanceAs (Decidable (58 ∉ text ∧ slash ∉ text ∧ 91 ∉ text ∧ 93 ∉ text))
  | .ipv6 text => inferInstanceAs (Decidable (93 ∉ text))

/-- What follows the host. -/
def partsTail (port uri : Option CString) : CString := (port.elim [] (58 :: ·)) ++ uri.getD []

/-- The components of an address `scheme://host[:port][uri]` of fewer than 200 characters. -/
structure Parts where
  secure : Bool
  host : Host
  port : Option CString
  uri : Option CString
  host_valid : host.Valid
  port_digits : ∀ num ∈ port, ∀ c ∈ num, isDigit c = true
  port_range : ∀ num ∈ port, 1 ≤ digitsValue num ∧ digitsValue num ≤ 65535
  uri_head : ∀ t ∈ uri, t.head? = some slash
  nul_free : 0 ∉ host.text ++ uri.getD []
  short : (schemeName secure ++ cstr "://" ++ host.written ++ partsTail port uri).length < 200

namespace Parts

variable (p : Parts)

/-- What follows the host. -/
def tail : CString := partsTail p.port p.uri

/-- The address. -/
def address : CString := schemeName p.secure ++ cstr "://" ++ p.host.written ++ p.tail

/-- The components, with the default values of the scheme. -/
def url : Url :=
  ⟨p.secure, (p.port.map digitsValue).getD (defaultPort p.secure), some (schemeName p.secure), some p.host.text,
    some (p.uri.getD [slash])⟩

/-- The address of a broker. -/
def conn : Parts where
  secure := false
  host := .ipv6 (cstr "::1")
  port := some (cstr "8100")
  uri := some (cstr "/conn")
  host_valid := by decide
  port_digits := by rintro _ ⟨⟩; decide +kernel
  port_range := by rintro _ ⟨⟩; decide
  uri_head := by rintro _ ⟨⟩; rfl
  nul_free := by decide
  short := by decide

example : conn.address = cstr "http://[::1]:8100/conn" := by decide

/-- The port that the scanner returns: a given one only in front of a URI. -/
def portRead : Nat := if p.uri.isSome then (p.port.map digitsValue).getD (defaultPort p.secure) else defaultPort p.secure

end Parts

variable {wide : Bool} {t seg rest : CString} {c : UInt8}

theorem isDigit_ne (hc : isDigit c = true) : c ≠ 0 ∧ c ≠ slash ∧ c ≠ 58 ∧ isSpace c = false ∧ c ≠ 45 ∧ c ≠ 43 := by
  revert hc
  apply forall_byte (P := fun c => isDigit c = true → c ≠ 0 ∧ c ≠ slash ∧ c ≠ 58 ∧ isSpace c = false ∧ c ≠ 45 ∧ c ≠ 43)
  decide +kernel

/-- A number in digits is read back. -/
theorem portOf_digits (hd : ∀ c ∈ t, isDigit c = true) (hle : digitsValue t ≤ 65535) : portOf wide t = digitsValue t := by
  have hspace : t.dropWhile isSpace = t := by
    cases t with
    | nil => rfl
    | cons c t =>
      obtain ⟨-, -, -, hs, -, -⟩ := isDigit_ne (hd c (List.mem_cons_self))
      rw [List.dropWhile_cons_of_neg (by simp [hs])]
  have hmax : (digitsValue t : Int) ≤ longMax wide := by
    unfold longMax
    split <;> omega
  have hstrtol : strtol wide t = digitsValue t := by
    rw [strtol, hspace]
    split
    · exact absurd rfl (isDigit_ne (hd 45 (List.mem_cons_self))).2.2.2.2.1
    · exact absurd rfl (isDigit_ne (hd 43 (List.mem_cons_self))).2.2.2.2.2
    · rw [List.takeWhile_eq_self_iff.mpr hd]
      exact min_eq_left hmax
  rw [portOf, hstrtol]
  omega

theorem slash_notMem_digits (hd : ∀ c ∈ t, isDigit c = true) : slash ∉ t :=
  fun h => (isDigit_ne (hd _ h)).2.1 rfl

theorem schemeUrl_schemeName (secure : Bool) :
    schemeUrl (schemeName secure) = ⟨secure, 0, some (schemeName secure), none, none⟩ := by
  cases secure <;> rfl

theorem handleScheme_schemeName (secure : Bool) (port : Nat) (host uri : Option CString) :
    handleScheme ⟨secure, port, some (schemeName secure), host, uri⟩ =
      ⟨secure, defaultPort secure, some (schemeName secure), host, uri⟩ := by
  cases secure <;> rfl

theorem addressUrl_sep (hno : 58 ∉ seg) : addressUrl wide (seg ++ cstr "://" ++ t) =
    authorityUrl wide (schemeUrl seg) (t.dropWhile (· = slash)) := by
  have hsplit : seg ++ cstr "://" ++ t = seg ++ 58 :: (slash :: slash :: t) := by
    simp [cstr, slash]
  rw [hsplit, addressUrl, if_pos (by simp), takeWhile_sep hno, authorityOf, dropWhile_sep hno]
  simp

/-- A host that is no bracket text, with what follows it. -/
theorem authorityUrl_name {url : Url} (hcolon : 58 ∉ seg) (hslash : slash ∉ seg) (hopen : seg.head? ≠ some 91)
    (hrest : ∀ c ∈ rest.head?, c = 58 ∨ c = slash) (hnil : seg = [] → rest.head? = some 58) :
    authorityUrl wide url ((seg ++ rest).dropWhile (· = slash)) =
      some (restUrl wide { url with host := some seg } rest) := by
  have hin : ∀ a ∈ seg, insideHost a = true := fun a ha => by
    simpa [insideHost] using ⟨ne_of_mem_of_not_mem ha hcolon, ne_of_mem_of_not_mem ha hslash⟩
  have hhead : ∀ c ∈ (seg ++ rest).head?, c ≠ slash ∧ c ≠ 91 := by
    cases seg with
    | nil =>
      rw [List.nil_append, hnil rfl]
      rintro c ⟨⟩
      decide
    | cons a seg =>
      rintro c ⟨⟩
      exact ⟨fun h => hslash (h ▸ List.mem_cons_self), fun h => hopen (congrArg some h)⟩
  have hkeep : (seg ++ rest).dropWhile (· = slash) = seg ++ rest := by
    cases hl : seg ++ rest with
    | nil => rfl
    | cons a l => exact List.dropWhile_cons_of_neg (by simpa using (hhead a (by rw [hl]; rfl)).1)
  have hne : seg ++ rest ≠ [] := by
    intro h
    obtain ⟨rfl, rfl⟩ := List.append_eq_nil_iff.mp h
    cases hnil rfl
  have hstop : rest.takeWhile insideHost = [] ∧ rest.dropWhile insideHost = rest := by
    cases rest with
    | nil => exact ⟨rfl, rfl⟩
    | cons c rest =>
      have hc : ¬insideHost c = true := by rcases hrest c rfl with rfl | rfl <;> decide
      exact ⟨List.takeWhile_cons_of_neg hc, List.dropWhile_cons_of_neg hc⟩
  rw [hkeep, authorityUrl, if_neg (fun h : _ = some (91 : UInt8) => (hhead 91 h).2 rfl), hostUrl, if_neg hne,
    List.takeWhile_append_of_pos hin, List.dropWhile_append_of_pos hin, hstop.1, hstop.2, List.append_nil]

namespace Parts

variable (p : Parts)

theorem head_tail : ∀ c ∈ p.tail.head?, c = 58 ∨ c = slash := by
  obtain ⟨-, -, port, uri, -, -, -, huri, -, -⟩ := p
  intro c hc
  cases port with
  | some num => exact .inl (Option.some.inj hc).symm
  | none =>
    cases uri with
    | none => cases hc
    | some t => exact .inr (Option.some.inj (hc.symm.trans (huri t rfl)))

theorem head_tail_port (h : p.port.isSome) : p.tail.head? = some 58 := by
  obtain ⟨num, hnum⟩ := Option.isSome_iff_exists.mp h
  rw [tail, partsTail, hnum]
  rfl

theorem restUrl_tail (host : Option CString) :
    restUrl wide ⟨p.secure, 0, some (schemeName p.secure), host, none⟩ p.tail =
      ⟨p.secure, p.portRead, some (schemeName p.secure), host, some (p.uri.getD [slash])⟩ := by
  obtain ⟨secure, hst, port, uri, -, hdigits, hrange, huri, -, -⟩ := p
  cases port with
  | none =>
    cases uri with
    | none => simp [tail, partsTail, restUrl, uriUrl, portRead, handleScheme_schemeName]
    | some t =>
      obtain ⟨t, rfl⟩ := List.head?_eq_some_iff.mp (huri t rfl)
      simp [tail, partsTail, restUrl, uriUrl, portRead, handleScheme_schemeName, slash]
  | some num =>
    have hslash := slash_notMem_digits (hdigits num rfl)
    cases uri with
    | none => simp [tail, partsTail, restUrl, portUrl, portRead, handleScheme_schemeName, hslash]
    | some t =>
      obtain ⟨t, rfl⟩ := List.head?_eq_some_iff.mp (huri t rfl)
      have hport : portOf wide num = digitsValue num := portOf_digits (hdigits num rfl) (hrange num rfl).2
      have hmem : slash ∈ num ++ slash :: t := by simp
      rw [show (⟨secure, hst, some num, some (slash :: t), ‹_›, hdigits, hrange, huri, ‹_›, ‹_›⟩ : Parts).tail =
        58 :: (num ++ slash :: t) from rfl, restUrl, if_pos List.head?_cons, List.tail_cons, portUrl, if_pos hmem,
        takeWhile_sep hslash, dropWhile_sep hslash, hport]
      rfl

/-- The address, where its host is not empty or a port stands behind it. -/
theorem addressUrl_address (h : p.host = .name [] → p.port.isSome) : addressUrl wide p.address =
    some ⟨p.secure, p.portRead, some (schemeName p.secure), some p.host.text, some (p.uri.getD [slash])⟩ := by
  have hscheme : (58 : UInt8) ∉ schemeName p.secure := by cases p.secure <;> decide
  rw [address, List.append_assoc _ _ p.tail, addressUrl_sep hscheme, schemeUrl_schemeName]
  have hvalid := p.host_valid
  cases hhost : p.host with
  | name text =>
    rw [hhost] at hvalid
    obtain ⟨hcolon, hslash, hopen, -⟩ := hvalid
    have hhead : text.head? ≠ some 91 := fun h => hopen (List.mem_of_head? h)
    rw [show Host.written (.name text) = text from rfl,
      authorityUrl_name hcolon hslash hhead p.head_tail (fun hnil => p.head_tail_port (h (hhost.trans (by rw [hnil])))),
      restUrl_tail]
    rfl
  | ipv6 text =>
    rw [hhost] at hvalid
    have hno : (93 : UInt8) ∉ 91 :: text := List.not_mem_cons_of_ne_of_not_mem (by decide) hvalid
    have hsplit : Host.written (.ipv6 text) ++ p.tail = 91 :: text ++ 93 :: p.tail := by simp [Host.written]
    rw [hsplit, List.cons_append, List.dropWhile_cons_of_neg (by decide), authorityUrl, if_pos List.head?_cons,
      bracketUrl, if_pos (by simp), ← List.cons_append, takeWhile_sep hno, dropWhile_sep hno, List.tail_cons,
      List.tail_cons, restUrl_tail]
    rfl

end Parts

/-- The URI of a result is the default one, or stands in `t`. -/
def UriWithin (t : CString) (url : Url) : Prop := ∃ uri, url.uri = some uri ∧ (uri = [slash] ∨ uri.length ≤ t.length)

theorem UriWithin.mono {t' : CString} {url : Url} (h : UriWithin t url) (hle : t.length ≤ t'.length) :
    UriWithin t' url := by
  obtain ⟨uri, huri, hw⟩ := h
  exact ⟨uri, huri, hw.imp_right (fun h => h.trans hle)⟩

theorem uriWithin_uriUrl (url : Url) (t : CString) : UriWithin t (uriUrl url t) := by
  refine ⟨_, rfl, ?_⟩
  split
  · exact .inl rfl
  · exact .inr (Nat.le_refl _)

@[simp] theorem handleScheme_uri (url : Url) : (handleScheme url).uri = url.uri := by
  unfold handleScheme
  split
  · rfl
  · split <;> rfl

theorem uriWithin_restUrl (url : Url) (t : CString) : UriWithin t (restUrl wide url t) := by
  unfold restUrl portUrl
  split
  · split
    · exact (uriWithin_uriUrl _ _).mono ((List.dropWhile_suffix _).length_le.trans (t.tail_suffix.length_le))
    · exact ⟨[slash], by simp, .inl rfl⟩
  · exact uriWithin_uriUrl _ t

theorem uriWithin_authorityUrl {url url' : Url} (h : authorityUrl wide url t = some url') : UriWithin t url' := by
  unfold authorityUrl hostUrl bracketUrl at h
  split at h
  · split at h
    · cases h
      exact (uriWithin_restUrl _ _).mono ((List.tail_suffix _).length_le.trans (List.dropWhile_suffix _).length_le)
    · cases h
      exact uriWithin_uriUrl _ _
  · split at h
    · cases h
    · cases h
      exact (uriWithin_restUrl _ _).mono (List.dropWhile_suffix _).length_le

namespace Parts

variable (p : Parts)

/-- Behind a scheme alone the slashes of the URI are skipped as well. -/
theorem addressUrl_ne (hhost : p.host = .name []) (hport : p.port = none) :
    addressUrl wide p.address ≠ some p.url := by
  have hscheme : (58 : UInt8) ∉ schemeName p.secure := by cases p.secure <;> decide
  have htail : p.host.written ++ p.tail = p.uri.getD [] := by
    rw [hhost, tail, partsTail, hport]
    rfl
  rw [address, List.append_assoc _ _ p.tail, addressUrl_sep hscheme, htail]
  intro h
  obtain ⟨uri, huri, hw⟩ := uriWithin_authorityUrl h
  cases hgiven : p.uri with
  | none =>
    rw [hgiven] at h
    cases h
  | some t =>
    obtain ⟨t, rfl⟩ := List.head?_eq_some_iff.mp (p.uri_head t hgiven)
    have huri' : slash :: t = uri := by
      rw [url, hgiven] at huri
      exact Option.some.inj huri
    rw [hgiven, Option.getD_some, List.dropWhile_cons_of_pos (by simp)] at h hw
    subst huri'
    rcases hw with hw | hw
    · obtain rfl : t = [] := (List.cons.inj hw).2
      cases h
    · have hle := (List.dropWhile_suffix (fun c => decide (c = slash)) (l := t)).length_le
      rw [List.length_cons] at hw
      omega

theorem zero_notMem_address : 0 ∉ p.address := by
  have hscheme : 0 ∉ schemeName p.secure ++ cstr "://" := by cases p.secure <;> decide
  obtain ⟨hhost, huri⟩ := not_or.mp (mt List.mem_append.mpr p.nul_free)
  have hwritten : 0 ∉ p.host.written := by
    cases hp : p.host with
    | name text =>
      rw [hp] at hhost
      exact hhost
    | ipv6 text =>
      rw [hp] at hhost
      simpa [Host.written, Host.text] using hhost
  have hport : 0 ∉ p.port.elim [] (58 :: ·) := by
    cases hp : p.port with
    | none => exact List.not_mem_nil
    | some num =>
      exact List.not_mem_cons_of_ne_of_not_mem (by decide) (fun h => (isDigit_ne (p.port_digits num hp 0 h)).1 rfl)
  rw [address, tail, partsTail]
  simp only [List.mem_append, not_or] at hscheme ⊢
  exact ⟨⟨hscheme, hwritten⟩, hport, huri⟩

theorem head_address : p.address.head? ≠ some 58 := by
  rw [address]
  cases p.secure <;> simp [schemeName, cstr]

end Parts

namespace Parts

variable (p : Parts)

theorem url_eq_iff : some p.url = some ⟨p.secure, p.portRead, some (schemeName p.secure), some p.host.text,
    some (p.uri.getD [slash])⟩ ↔ p.portRead = (p.port.map digitsValue).getD (defaultPort p.secure) := by
  simp [url, eq_comm]

theorem portRead_eq_iff : p.portRead = (p.port.map digitsValue).getD (defaultPort p.secure) ↔
    ∀ num ∈ p.port, p.uri.isSome ∨ digitsValue num = defaultPort p.secure := by
  unfold portRead
  cases p.port <;> cases p.uri <;> simp [eq_comm]

end Parts

/-- **Components.** The components of a well-formed address come back exactly where a port stands in front of a URI, or
    is the default one, and a host that is empty has a port behind it. -/
theorem url_components_iff (wide : Bool) (p : Parts) :
    (∃ fuel, dslinkUrlParse wide fuel p.address = some (some p.url)) ↔
      (∀ num ∈ p.port, p.uri.isSome ∨ digitsValue num = defaultPort p.secure) ∧
      (p.host = .name [] → p.port.isSome) := by
  rw [parse_short_iff p.zero_notMem_address (Nat.le_trans p.short.le (by decide)), and_iff_right p.head_address]
  by_cases hhost : p.host = .name [] → p.port.isSome
  · rw [and_iff_left hhost, p.addressUrl_address hhost, p.url_eq_iff, p.portRead_eq_iff]
  · rw [Classical.not_imp] at hhost
    exact iff_of_false (fun h => p.addressUrl_ne hhost.1 (Option.not_isSome_iff_eq_none.mp hhost.2) h.symm)
      (fun h => hhost.2 (h.2 hhost.1))

/-- "http://host:8080" comes back with the port 80. -/
theorem given_port_lost :
    (∃ fuel, dslinkUrlParse true fuel (cstr "http://host:8080") =
      some (some ⟨false, 80, some (cstr "http"), some (cstr "host"), some (cstr "/")⟩)) ∧
    ¬∃ fuel, dslinkUrlParse true fuel (cstr "http://host:8080") =
      some (some ⟨false, 8080, some (cstr "http"), some (cstr "host"), some (cstr "/")⟩) := by
  rw [parse_short_iff (by decide) (by decide), parse_short_iff (by decide) (by decide)]
  decide

/-! ## The text of a URL -/

/-- `dslink_url_convert_string`. -/
def dslinkUrlConvertString (url : Option Url) : CString :=
  match url with
  | some ⟨_, port, some scheme, some host, some uri⟩ => scheme ++ cstr "://" ++ host ++ (58 :: (decimal port ++ uri))
  | _ => []

theorem toNat_of_mem_toDigits {n : Nat} {d : Char} (hd : d ∈ Nat.toDigits 10 n) : 48 ≤ d.toNat ∧ d.toNat ≤ 57 := by
  have hdigit := Nat.isDigit_of_mem_toDigits (by decide) (by decide) hd
  simpa [Char.isDigit, UInt32.le_iff_toNat_le] using hdigit

theorem isDigit_decimal {n : Nat} : ∀ c ∈ decimal n, isDigit c = true := by
  intro c hc
  obtain ⟨d, hd, rfl⟩ := List.mem_map.mp hc
  obtain ⟨hlow, hhigh⟩ := toNat_of_mem_toDigits hd
  have hbyte : (d.toNat.toUInt8).toNat = d.toNat := toNat_ofNat_le (hhigh.trans (by decide))
  simp [isDigit, UInt8.le_iff_toNat_le, hbyte, hlow, hhigh]

theorem digitsValue_decimal (n : Nat) : digitsValue (decimal n) = n := by
  conv_rhs => rw [← @Nat.ofDigitChars_ten_toDigits n]
  rw [digitsValue, decimal, List.foldl_map, Nat.ofDigitChars_eq_foldl]
  apply List.foldl_ext
  intro m d hd
  have hbyte : (d.toNat.toUInt8).toNat = d.toNat := toNat_ofNat_le ((toNat_of_mem_toDigits hd).2.trans (by decide))
  rw [hbyte, Nat.mul_comm]
  rfl

theorem length_decimal_port {n : Nat} (h : n < 65536) : (decimal n).length ≤ 5 := by
  rw [decimal, List.length_map, Nat.length_toDigits_le_iff (by decide) (by decide)]
  omega

/-- The URI behind a host. -/
def restUri (t : CString) : CString :=
  if t.head? = some 58 then (if slash ∈ t.tail then t.tail.dropWhile (· ≠ slash) else [slash])
  else if t = [] then [slash] else t

/-- The result of an address whose scheme has been read. -/
def named (scheme : CString) (port : Nat) (host uri : Option CString) : Url :=
  ⟨(schemeUrl scheme).secure, port, some scheme, host, uri⟩

theorem schemeUrl_eq (scheme : CString) : schemeUrl scheme = named scheme 0 none none := by
  unfold named schemeUrl handleSchemeForSecure
  split
  · rfl
  · split <;> rfl

theorem handleScheme_named {port : Nat} (hport : port < 65536) (scheme : CString) (host uri : Option CString) :
    ∃ port' < 65536, handleScheme (named scheme port host uri) = named scheme port' host uri := by
  unfold handleScheme named schemeUrl handleSchemeForSecure
  dsimp only
  split
  · exact ⟨80, by decide, rfl⟩
  · split
    · exact ⟨443, by decide, rfl⟩
    · exact ⟨port, hport, rfl⟩

theorem portOf_lt (num : CString) : portOf wide num < 65536 := by
  unfold portOf
  omega

theorem restUrl_named (scheme host rest : CString) : ∃ port < 65536,
    restUrl wide (named scheme 0 (some host) none) rest = named scheme port (some host) (some (restUri rest)) := by
  unfold restUrl restUri portUrl
  split
  · split
    · rename_i hslash
      obtain ⟨seg, rest', hrest, hno⟩ := List.eq_append_cons_of_mem hslash
      refine ⟨_, @portOf_lt wide seg, ?_⟩
      rw [hrest, takeWhile_sep hno, dropWhile_sep hno]
      rfl
    · exact handleScheme_named (show 0 < 65536 by decide) scheme (some host) (some [slash])
  · obtain ⟨port, hport, heq⟩ := handleScheme_named (show 0 < 65536 by decide) scheme (some host) none
    exact ⟨port, hport, by rw [heq]; rfl⟩

/-- What is printed behind the host is read back, if the URI begins with a slash. -/
theorem restUrl_printed {port : Nat} {uri : CString} (hport : port < 65536) (huri : uri.head? = some slash)
    (scheme host : CString) : restUrl wide (named scheme 0 (some host) none) (58 :: (decimal port ++ uri)) =
      named scheme port (some host) (some uri) := by
  obtain ⟨uri, rfl⟩ := List.head?_eq_some_iff.mp huri
  have hno : slash ∉ decimal port := slash_notMem_digits isDigit_decimal
  have hportOf : portOf wide (decimal port) = port := by
    rw [portOf_digits isDigit_decimal (by rw [digitsValue_decimal]; omega), digitsValue_decimal]
  rw [restUrl, if_pos List.head?_cons, List.tail_cons, portUrl, if_pos (by simp), takeWhile_sep hno, dropWhile_sep hno,
    hportOf]
  rfl

/-- Behind a colon the URI begins with a slash. -/
theorem head_restUri_colon (t : CString) : (restUri (58 :: t)).head? = some slash := by
  rw [restUri, if_pos List.head?_cons, List.tail_cons]
  split
  · rename_i hslash
    obtain ⟨seg, rest, rfl, hno⟩ := List.eq_append_cons_of_mem hslash
    rw [dropWhile_sep hno]
    rfl
  · rfl

theorem head_restUri_iff (t : CString) : (restUri t).head? = some slash ↔ ∀ c ∈ t.head?, c = 58 ∨ c = slash := by
  cases t with
  | nil => simp [restUri]
  | cons c t =>
    by_cases hc : c = 58
    · subst hc
      exact iff_of_true (head_restUri_colon t) (by simp)
    · simp [restUri, hc]

theorem restUri_sublist (t : CString) : restUri t = [slash] ∨ (restUri t).Sublist t := by
  unfold restUri
  split
  · split
    · exact .inr ((List.dropWhile_sublist _).trans (List.tail_sublist t))
    · exact .inl rfl
  · split
    · exact .inl rfl
    · exact .inr (List.Sublist.refl t)

/-- Where the host of an authority and what follows it stand. -/
theorem authorityUrl_cases {url : Url} {scheme : CString}
    (h : authorityUrl wide (named scheme 0 none none) t = some url) :
    (t.head? = some 91 ∧ 93 ∉ t ∧ ∃ uri, url = named scheme 0 none (some uri)) ∨
    ∃ host rest, url = restUrl wide (named scheme 0 (some host) none) rest ∧ (host ++ rest).Sublist t ∧
      (t = 91 :: host ++ 93 :: rest ∧ 93 ∉ host ∨ t.head? ≠ some 91 ∧ t = host ++ rest ∧ 58 ∉ host ∧ slash ∉ host ∧
        ∀ c ∈ rest.head?, c = 58 ∨ c = slash) := by
  unfold authorityUrl at h
  split at h
  · rename_i hopen
    obtain ⟨t, rfl⟩ := List.head?_eq_some_iff.mp hopen
    have h := Option.some.inj h
    unfold bracketUrl at h
    split at h
    · rename_i hclose
      obtain ⟨host, rest, rfl, hno⟩ := List.eq_append_cons_of_mem (List.mem_of_ne_of_mem (by decide) hclose)
      have hno' : (93 : UInt8) ∉ 91 :: host := List.not_mem_cons_of_ne_of_not_mem (by decide) hno
      rw [← List.cons_append, takeWhile_sep hno', dropWhile_sep hno'] at h
      refine .inr ⟨host, rest, h.symm, ?_, .inl ⟨rfl, hno⟩⟩
      exact (List.Sublist.append_left (List.sublist_cons_self 93 rest) host).trans (List.sublist_cons_self _ _)
    · rename_i hclose
      exact .inl ⟨rfl, hclose, _, h.symm⟩
  · rename_i hopen
    unfold hostUrl at h
    split at h
    · cases h
    · have hsplit := List.takeWhile_append_dropWhile (p := insideHost) (l := t)
      obtain ⟨hcolon, hslash⟩ := insideHost_mem (fun a (ha : a ∈ t.takeWhile insideHost) => List.mem_takeWhile_imp ha)
      refine .inr ⟨t.takeWhile insideHost, t.dropWhile insideHost, (Option.some.inj h).symm, ?_, .inr ⟨hopen,
        hsplit.symm, hcolon, hslash, ?_⟩⟩
      · rw [hsplit]
      · intro c hc
        have hout := List.head?_dropWhile_not insideHost t
        rw [hc] at hout
        simpa [insideHost, not_and_or, or_iff_not_imp_left] using hout

/-- Text that a scanner without brackets reads as a host. -/
def HostText (host : CString) : Prop := 58 ∉ host ∧ slash ∉ host ∧ host.head? ≠ some 91

theorem authorityUrl_printed {scheme host uri : CString} {port : Nat} (hport : port < 65536) (hhost : HostText host)
    (huri : uri.head? = some slash) : authorityUrl wide (named scheme 0 none none)
      ((host ++ 58 :: (decimal port ++ uri)).dropWhile (· = slash)) = some (named scheme port (some host) (some uri)) := by
  have hcolon : ∀ c ∈ (58 :: (decimal port ++ uri)).head?, c = 58 ∨ c = slash := fun c hc =>
    .inl (Option.some.inj hc).symm
  rw [authorityUrl_name hhost.1 hhost.2.1 hhost.2.2 hcolon (fun _ => rfl)]
  exact congrArg some (restUrl_printed hport huri scheme host)

theorem dropWhile_slash_sep (host t : CString) :
    (host ++ 58 :: t).dropWhile (· = slash) = host.dropWhile (· = slash) ++ 58 :: t := by
  rw [List.dropWhile_append]
  split
  · rename_i hnil
    rw [List.isEmpty_iff.mp hnil]
    exact List.dropWhile_cons_of_neg (by decide)
  · rfl

theorem count_dropWhile_slash (host : CString) : (host.dropWhile (· = slash)).count 58 = host.count 58 := by
  have hnone : (host.takeWhile (· = slash)).count 58 = 0 :=
    List.count_eq_zero.mpr (fun h => absurd (List.mem_takeWhile_imp h) (by decide))
  conv_rhs => rw [← List.takeWhile_append_dropWhile (p := (· = slash)) (l := host), List.count_append, hnone, Nat.zero_add]

/-- Between brackets there is a colon more than in the host that was printed. -/
theorem bracketUrl_ne {scheme host t : CString} {url : Url} (hclose : 93 ∉ host)
    (hopen : ((host ++ 58 :: t).dropWhile (· = slash)).head? = some 91) (hurl : url.host = some host) :
    bracketUrl wide (named scheme 0 none none) ((host ++ 58 :: t).dropWhile (· = slash)) ≠ url := by
  have hcount := count_dropWhile_slash host
  have hclose' : 93 ∉ host.dropWhile (· = slash) := fun h => hclose ((List.dropWhile_suffix _).subset h)
  rw [dropWhile_slash_sep] at hopen ⊢
  rintro rfl
  cases hdrop : host.dropWhile (· = slash) with
  | nil =>
    rw [hdrop] at hopen
    cases hopen
  | cons c host' =>
    rw [hdrop] at hopen hcount hclose' hurl
    obtain rfl : c = 91 := Option.some.inj hopen
    unfold bracketUrl at hurl
    split at hurl
    · obtain ⟨port, -, hrest⟩ := @restUrl_named wide scheme
        ((91 :: host' ++ 58 :: t).takeWhile (· ≠ 93)).tail ((91 :: host' ++ 58 :: t).dropWhile (· ≠ 93)).tail
      have hinner : ((91 :: host' ++ 58 :: t).takeWhile (· ≠ 93)).tail = host' ++ 58 :: t.takeWhile (· ≠ 93) := by
        rw [List.takeWhile_append_of_pos (fun a ha => by simpa using ne_of_mem_of_not_mem ha hclose')]
        rfl
      have hhost : host' ++ 58 :: t.takeWhile (· ≠ 93) = host := by
        rw [← hinner]
        exact Option.some.inj ((congrArg Url.host hrest).symm.trans hurl)
      rw [← hhost, List.count_append, List.count_cons_self, List.count_cons_of_ne (by decide)] at hcount
      omega
    · cases hurl

/-- What is printed gives the result back only if the host is read without brackets, and the URI begins with a slash. -/
theorem authorityUrl_printed_only {scheme host uri : CString} {port : Nat} (hclose : 93 ∉ host)
    (h : authorityUrl wide (named scheme 0 none none) ((host ++ 58 :: (decimal port ++ uri)).dropWhile (· = slash)) =
      some (named scheme port (some host) (some uri))) : HostText host ∧ uri.head? = some slash := by
  unfold authorityUrl at h
  split at h
  · rename_i hopen
    exact absurd (Option.some.inj h) (bracketUrl_ne hclose hopen rfl)
  · rename_i hopen
    unfold hostUrl at h
    split at h
    · cases h
    · rw [Option.some.injEq] at h
      obtain ⟨port', -, hrest⟩ := @restUrl_named wide scheme
        (((host ++ 58 :: (decimal port ++ uri)).dropWhile (· = slash)).takeWhile insideHost)
        (((host ++ 58 :: (decimal port ++ uri)).dropWhile (· = slash)).dropWhile insideHost)
      have heq := hrest.symm.trans h
      have hhost := Option.some.inj (congrArg Url.host heq)
      have huri := Option.some.inj (congrArg Url.uri heq)
      have hin : ∀ a ∈ host, insideHost a = true := fun a ha => List.mem_takeWhile_imp (hhost ▸ ha)
      obtain ⟨hcolon, hslash⟩ := insideHost_mem hin
      have hkeep : host.dropWhile (· = slash) = host := by
        cases host with
        | nil => rfl
        | cons c host => exact List.dropWhile_cons_of_neg (by simpa using Ne.symm (List.ne_of_not_mem_cons hslash))
      rw [dropWhile_slash_sep, hkeep] at hopen huri
      refine ⟨⟨hcolon, hslash, fun hhead => hopen ?_⟩, ?_⟩
      · obtain ⟨host, rfl⟩ := List.head?_eq_some_iff.mp hhead
        rfl
      · rw [← huri, (takeWhile_host hin (.inl rfl)).2]
        exact head_restUri_colon _

/-- The parts of a result stand in the address, but for a default URI. -/
theorem printed_parts {scheme rest host text : CString} (h0 : 0 ∉ scheme ++ 58 :: rest)
    (hlen : (scheme ++ 58 :: rest).length ≤ 200) (hsub : (host ++ text).Sublist rest) :
    0 ∉ scheme ++ (host ++ restUri text) ∧ (scheme ++ (host ++ restUri text)).length ≤ 244 := by
  have hrest : 0 ∉ host ++ text := fun h => h0 (by simp [hsub.subset h])
  have hshort := hsub.length_le
  simp only [List.mem_append, not_or, List.length_append, List.length_cons] at h0 hrest hlen hshort ⊢
  have huri : 0 ∉ restUri text ∧ (restUri text).length ≤ text.length + 1 := by
    rcases restUri_sublist text with h | h
    · rw [h]
      exact ⟨by decide, Nat.le_add_left _ _⟩
    · exact ⟨fun hmem => hrest.2 (h.subset hmem), Nat.le_succ_of_le h.length_le⟩
  exact ⟨⟨h0.1, hrest.1, huri.1⟩, by omega⟩

/-- `url` is read back from the text that is printed for it. -/
def ReadBack (wide : Bool) (url : Url) : Prop :=
  ∃ fuel, dslinkUrlParse wide fuel (dslinkUrlConvertString (some url)) = some (some url)

theorem readBack_iff {scheme host uri : CString} {port : Nat} (hport : port < 65536) (hcolon : 58 ∉ scheme)
    (hne : scheme ≠ []) (h0 : 0 ∉ scheme ++ (host ++ uri)) (hlen : (scheme ++ (host ++ uri)).length ≤ 244) :
    ReadBack wide (named scheme port (some host) (some uri)) ↔
      authorityUrl wide (named scheme 0 none none) ((host ++ 58 :: (decimal port ++ uri)).dropWhile (· = slash)) =
        some (named scheme port (some host) (some uri)) := by
  have hdigits := length_decimal_port hport
  have hd0 : 0 ∉ decimal port := fun h => (isDigit_ne (isDigit_decimal 0 h)).1 rfl
  have htext : dslinkUrlConvertString (some (named scheme port (some host) (some uri))) =
      scheme ++ cstr "://" ++ (host ++ 58 :: (decimal port ++ uri)) := by
    simp [dslinkUrlConvertString, named]
  have hsep : 0 ∉ cstr "://" := by decide
  simp only [List.mem_append, not_or, List.length_append] at h0 hlen
  rw [ReadBack, htext, parse_short_iff (by simp [h0, hd0, hsep]) (by simp [cstr]; omega), and_iff_right, addressUrl_sep hcolon,
    schemeUrl_eq, eq_comm]
  cases scheme with
  | nil => exact absurd rfl hne
  | cons c scheme => simpa using Ne.symm (List.ne_of_not_mem_cons hcolon)

/-- The text of an authority is read back from what is printed for it: it does not begin with a bracket, or the bracket
    text could do without the brackets, and a port or the URI follows it. -/
def Printable (t : CString) : Prop :=
  t.head? = some 91 → ∃ text rest, t = 91 :: text ++ 93 :: rest ∧ 93 ∉ text ∧ HostText text ∧
    ∀ c ∈ rest.head?, c = 58 ∨ c = slash

/-- **Print and parse.** A result is read back from the text that is printed for it exactly where its authority is
    `Printable`. -/
theorem url_print_parse_exact (wide : Bool) (address : CString) (h0 : 0 ∉ address) (hlen : address.length < 200)
    (url : Url) (haccepted : ∃ fuel, dslinkUrlParse wide fuel address = some (some url)) :
    (∃ fuel, dslinkUrlParse wide fuel (dslinkUrlConvertString (some url)) = some (some url)) ↔
      Printable (authorityOf address) := by
  obtain ⟨hhead, hurl⟩ := (parse_short_iff h0 (by omega)).mp haccepted
  rcases sep_cases 58 address with hno | ⟨scheme, rest, rfl, hno⟩
  · rw [addressUrl, if_neg hno] at hurl
    cases hurl
  have hne : scheme ≠ [] := by
    rintro rfl
    exact hhead rfl
  have hdrop : (rest.dropWhile (· = slash)).Sublist rest := List.dropWhile_sublist _
  rw [addressUrl, if_pos (by simp), takeWhile_sep hno, schemeUrl_eq] at hurl
  have hauthority : authorityOf (scheme ++ 58 :: rest) = rest.dropWhile (· = slash) := by
    rw [authorityOf, dropWhile_sep hno, List.tail_cons]
  rw [hauthority] at hurl ⊢
  generalize rest.dropWhile (· = slash) = t at hurl hdrop
  rcases authorityUrl_cases hurl.symm with ⟨hopen, hclose, uri, rfl⟩ | ⟨host, text, rfl, hsub, hform⟩
  · refine iff_of_false (fun h => ?_) (fun h => ?_)
    · cases ((parse_short_iff List.not_mem_nil (Nat.zero_le _)).mp h).2
    · obtain ⟨text, rest', rfl, -⟩ := h hopen
      exact hclose (by simp)
  · obtain ⟨port, hport, hrest⟩ := @restUrl_named wide scheme host text
    have hin : (host ++ text).Sublist rest := hsub.trans hdrop
    have hparts := printed_parts h0 (Nat.le_of_lt hlen) hin
    rw [hrest]
    refine (readBack_iff hport hno hne hparts.1 hparts.2).trans ?_
    rcases hform with ⟨rfl, hclose⟩ | ⟨hopen, rfl, hcolon, hslash, hhead⟩
    · constructor
      · intro h _
        obtain ⟨hhost, huri⟩ := authorityUrl_printed_only hclose h
        exact ⟨host, text, rfl, hclose, hhost, (head_restUri_iff text).mp huri⟩
      · intro h
        obtain ⟨host', text', heq, hclose', hhost, hhead⟩ := h rfl
        obtain ⟨rfl, rfl⟩ := sep_inj hclose hclose' (List.cons.inj heq).2
        exact authorityUrl_printed hport hhost ((head_restUri_iff text).mpr hhead)
    · refine iff_of_true (authorityUrl_printed hport ⟨hcolon, hslash, fun h => hopen ?_⟩
        ((head_restUri_iff text).mpr hhead)) (fun h => absurd h hopen)
      obtain ⟨host, rfl⟩ := List.head?_eq_some_iff.mp h
      rfl

theorem url_print_parse_exact_host :
    (∃ fuel, dslinkUrlParse true fuel (dslinkUrlConvertString (some ⟨false, 80, some (cstr "http"), some (cstr "h"),
      some (cstr "/conn")⟩)) = some (some ⟨false, 80, some (cstr "http"), some (cstr "h"), some (cstr "/conn")⟩)) ↔
      Printable (authorityOf (cstr "http://h/conn")) :=
  url_print_parse_exact true (cstr "http://h/conn") (by decide) (by decide) _
    ⟨13, by decide⟩

/-- The address of an IPv6 host, whose brackets are not printed. -/
theorem ipv6_not_read_back :
    (∃ fuel, dslinkUrlParse true fuel (cstr "http://[::1]:8100/conn") = some (some ⟨false, 8100, some (cstr "http"),
      some (cstr "::1"), some (cstr "/conn")⟩)) ∧
    ¬∃ fuel, dslinkUrlParse true fuel (dslinkUrlConvertString (some ⟨false, 8100, some (cstr "http"),
      some (cstr "::1"), some (cstr "/conn")⟩)) = some (some ⟨false, 8100, some (cstr "http"), some (cstr "::1"),
        some (cstr "/conn")⟩) := by
  rw [parse_short_iff (by decide) (by decide), parse_short_iff (by decide) (by decide)]
  decide

end Url

end DSLink
