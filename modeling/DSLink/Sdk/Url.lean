import DSLink.Broker.State
import DSLink.Lib.Tails

/-!
# `Sdk.Url` — `dslink_url_parse`

The scanner of `sdk/src/url.c`. `len` is `uint_fast8_t`, taken as 8 bits wide: it counts the characters of the
component that is being read, from `address` on, and is rewound where the component ends. Where the scanner reads past
the terminator of the address there is no result; memory is there whenever it is asked for.

## Contents
- `Url`, `Scan`, `round`, `dslinkUrlParse`: the scanner with its two loops.
- `Ends`: the loop from one round to its end, and the rules for one round and for a component.
- `PartsShort`, `url_parse_ends_iff`.
-/

namespace DSLink

/-- `Url`. -/
structure Url where
  secure : Bool
  port : Nat
  scheme : Option CString
  host : Option CString
  uri : Option CString
  deriving DecidableEq

namespace Url

/-! ## The C library -/

/-- `LONG_MAX`, where `long` has 64 or 32 bits. -/
def longMax (wide : Bool) : Int := if wide then 9223372036854775807 else 2147483647

/-- `isspace`. -/
def isSpace (c : UInt8) : Bool := c = 32 ∨ 9 ≤ c ∧ c ≤ 13

/-- `isdigit`. -/
def isDigit (c : UInt8) : Bool := 48 ≤ c ∧ c ≤ 57

/-- The number that a row of digits stands for. -/
def digitsValue (digits : CString) : Nat := digits.foldl (fun n c => n * 10 + (c.toNat - 48)) 0

/-- `strtol` to the base 10. -/
def strtol (wide : Bool) (s : CString) : Int :=
  match s.dropWhile isSpace with
  | 45 :: s => max (-(digitsValue (s.takeWhile isDigit) : Int)) (-longMax wide - 1)
  | 43 :: s => min (digitsValue (s.takeWhile isDigit)) (longMax wide)
  | s => min (digitsValue (s.takeWhile isDigit)) (longMax wide)

/-! ## The scanner -/

/-- `*(address + i)`, up to the terminator. -/
def charAt (address : CString) (i : UInt8) : Option UInt8 := (address ++ [0])[i.toNat]?

/-- `URL_ADDRESS_SUBSTRING_COPY`: the string in the new memory, into which `len` characters are copied. -/
def substringCopy (address : CString) (len : UInt8) : Option CString :=
  if len.toNat ≤ address.length + 1 then some (((address ++ [0]).take len.toNat).takeWhile (· ≠ 0)) else none

/-- `dslink_url_handle_scheme`. -/
def handleScheme (url : Url) : Url :=
  if url.scheme = some (cstr "http") then { url with port := 80, secure := false }
  else if url.scheme = some (cstr "https") then { url with port := 443, secure := true }
  else url

/-- `dslink_url_handle_scheme_for_secure`. -/
def handleSchemeForSecure (url : Url) : Url :=
  if url.scheme = some (cstr "http") then { url with secure := false }
  else if url.scheme = some (cstr "https") then { url with secure := true }
  else url

/-- `state`, by what is read in it. -/
inductive State
  | scheme
  | host
  | port
  | ipv6
  | uri
  deriving DecidableEq

/-- The variables of the loop. -/
structure Scan where
  url : Url
  state : State
  len : UInt8
  address : CString
  c : UInt8
  deriving DecidableEq

/-- `do { c = *(address + (++len)); } while (c == '/')`. -/
def skipSlashes (address : CString) : Nat → UInt8 → Option (UInt8 × UInt8)
  | 0, _ => none
  | fuel + 1, len => (charAt address (len + 1)).bind fun c =>
    if c = slash then skipSlashes address fuel (len + 1) else some (c, len + 1)

/-- The body of the loop up to its last line, for a long of 64 or 32 bits. -/
def body (wide : Bool) (s : Scan) : Option Scan :=
  if s.c = 58 ∧ s.state = .scheme then do
    let scheme ← substringCopy s.address (s.len - 1)
    let (c, len) ← skipSlashes s.address 256 (s.len - 1)
    some ⟨handleSchemeForSecure { s.url with scheme := some scheme }, if c = 91 then .ipv6 else .host, 0,
      s.address.drop len.toNat, c⟩
  else if (s.c = 58 ∨ s.c = slash) ∧ s.state = .host then do
    let host ← substringCopy s.address (s.len - 1)
    if s.c = 58 then some ⟨{ s.url with host := some host }, .port, 0, s.address.drop (1 + (s.len - 1).toNat), s.c⟩
    else some ⟨handleScheme { s.url with host := some host }, .uri, 0, s.address.drop (s.len - 1).toNat, s.c⟩
  else if s.c = slash ∧ s.state = .port then do
    let num ← substringCopy s.address (s.len - 1)
    some ⟨{ s.url with port := (strtol wide num % 65536).toNat }, .uri, 0, s.address.drop (s.len - 1).toNat, s.c⟩
  else if s.c = 93 ∧ s.state = .ipv6 then do
    let host ← substringCopy (s.address.drop 1) (s.len - 2)
    let c ← charAt (s.address.drop 2) (s.len - 2)
    if c = 58 then some ⟨{ s.url with host := some host }, .port, 0, s.address.drop (3 + (s.len - 2).toNat), c⟩
    else some ⟨handleScheme { s.url with host := some host }, .uri, 0, s.address.drop (2 + (s.len - 2).toNat), c⟩
  else some s

/-- One round of the loop, with `++len` at its end. -/
def round (wide : Bool) (s : Scan) : Option Scan :=
  (body wide s).bind fun s => (charAt s.address s.len).map fun c => { s with c, len := s.len + 1 }

/-- The loop, for at most so many rounds. -/
def loop (wide : Bool) : Nat → Scan → Option Scan
  | 0, s => if s.c = 0 then some s else none
  | fuel + 1, s => if s.c = 0 then some s else (round wide s).bind (loop wide fuel)

/-- What follows the loop. -/
def finish (s : Scan) : Option (Option Url) :=
  match s.state with
  | .scheme => some none
  | .host =>
    if s.len ≤ 1 then some none
    else (substringCopy s.address s.len).map fun host =>
      some { handleScheme s.url with uri := some [slash], host := some host }
  | .port => some (some (handleScheme { s.url with uri := some [slash] }))
  | .ipv6 | .uri =>
    if s.len ≤ 1 then some (some { s.url with uri := some [slash] })
    else (substringCopy s.address s.len).map fun uri => some { s.url with uri := some uri }

/-- The variables before the loop. -/
def first (address : CString) : Scan := ⟨⟨false, 0, none, none, none⟩, .scheme, 0, address, address.headD 0⟩

/-- `dslink_url_parse`, with at most so many rounds of its loop. -/
def dslinkUrlParse (wide : Bool) (fuel : Nat) (address : CString) : Option (Option Url) :=
  (loop wide fuel (first address)).bind finish

variable {wide : Bool} {s s' r : Scan} {url : Url} {st : State} {t seg rest : CString} {c : UInt8} {k : Nat}

/-! ## The loop to its end -/

/-- The loop that begins with `s` ends with `r`. -/
def Ends (wide : Bool) (s r : Scan) : Prop := ∃ fuel, loop wide fuel s = some r

theorem ends_done (hc : s.c = 0) : Ends wide s r ↔ r = s := by
  have hloop : ∀ fuel, loop wide fuel s = some s := by
    intro fuel
    cases fuel <;> simp [loop, hc]
  constructor
  · rintro ⟨fuel, h⟩
    rw [hloop] at h
    exact (Option.some.inj h).symm
  · rintro rfl
    exact ⟨0, hloop 0⟩

theorem ends_round (hc : s.c ≠ 0) : Ends wide s r ↔ ∃ s', round wide s = some s' ∧ Ends wide s' r := by
  constructor
  · rintro ⟨fuel, h⟩
    cases fuel with
    | zero => simp [loop, hc] at h
    | succ fuel =>
      rw [loop, if_neg hc] at h
      obtain ⟨s', hs', h⟩ := Option.bind_eq_some_iff.mp h
      exact ⟨s', hs', fuel, h⟩
  · rintro ⟨s', hs', fuel, h⟩
    refine ⟨fuel + 1, ?_⟩
    rw [loop, if_neg hc, hs']
    exact h

theorem ends_of_round (hc : s.c ≠ 0) (hs : round wide s = some s') : Ends wide s r ↔ Ends wide s' r := by
  rw [ends_round hc]
  exact ⟨fun ⟨_, h, hr⟩ => Option.some.inj (hs.symm.trans h) ▸ hr, fun hr => ⟨s', hs, hr⟩⟩

/-- What is kept by every round of a loop that goes on keeps the loop from its end. -/
theorem never_ends (inv : Scan → Prop) (hkeep : ∀ s, inv s → s.c ≠ 0 ∧ ∀ s', round wide s = some s' → inv s')
    (h : inv s) : ¬Ends wide s r := by
  rintro ⟨fuel, hr⟩
  induction fuel generalizing s with
  | zero => simp [loop, (hkeep s h).1] at hr
  | succ fuel ih =>
    rw [loop, if_neg (hkeep s h).1] at hr
    obtain ⟨s', hs', hr⟩ := Option.bind_eq_some_iff.mp hr
    exact ih ((hkeep s h).2 s' hs') hr

/-! ## A component -/

/-- The characters that end the component of a state. -/
def stops (st : State) (c : UInt8) : Bool :=
  match st with
  | .scheme => c = 58
  | .host => c = 58 ∨ c = slash
  | .port => c = slash
  | .ipv6 => c = 93
  | .uri => false

/-- The component that begins at `t`. -/
def part (st : State) (t : CString) : CString := t.takeWhile (fun c => !stops st c)

/-- `address` is `t`, and its character `k` is looked at. -/
def reading (url : Url) (st : State) (t : CString) (k : Nat) : Scan :=
  ⟨url, st, UInt8.ofNat (k + 1), t, ((t ++ [0])[k]?).getD 0⟩

theorem body_of_not_stops (h : stops s.state s.c = false) : body wide s = some s := by
  obtain ⟨url, st, len, t, c⟩ := s
  cases st <;> simp_all [body, stops]

theorem charAt_ofNat (hk : k ≤ 255) (hle : k ≤ t.length) : charAt t (UInt8.ofNat k) = some (((t ++ [0])[k]?).getD 0) := by
  have hnat : (UInt8.ofNat k).toNat = k := by
    rw [UInt8.toNat_ofNat']
    omega
  rw [charAt, hnat, List.getElem?_eq_getElem (by simp; omega)]
  rfl

theorem getD_mem (h0 : 0 ∉ t) (hk : k < t.length) : ((t ++ [0])[k]?).getD 0 = t[k] ∧ t[k] ≠ 0 := by
  refine ⟨?_, fun h => h0 (h ▸ List.getElem_mem hk)⟩
  rw [List.getElem?_append_left hk, List.getElem?_eq_getElem hk]
  rfl

theorem ends_succ (h0 : 0 ∉ t) (hk : k < 255) (hlt : k < t.length) (hno : stops st t[k] = false) :
    Ends wide (reading url st t k) r ↔ Ends wide (reading url st t (k + 1)) r := by
  obtain ⟨hc, hne⟩ := getD_mem h0 hlt
  apply ends_of_round
  · show ((t ++ [0])[k]?).getD 0 ≠ 0
    rw [hc]
    exact hne
  · rw [round, body_of_not_stops (by show stops st _ = false; rw [reading, hc]; exact hno), Option.bind_some]
    show (charAt t (UInt8.ofNat (k + 1))).map _ = _
    rw [charAt_ofNat (by omega) (by omega)]
    simp [reading]

/-- The component is read over. -/
theorem ends_skip (h0 : 0 ∉ t) (hk : k ≤ 255) (hle : k ≤ t.length) (hno : ∀ c ∈ t.take k, stops st c = false) :
    Ends wide (reading url st t 0) r ↔ Ends wide (reading url st t k) r := by
  induction k with
  | zero => exact Iff.rfl
  | succ k ih =>
    rw [ih (by omega) (by omega) (fun c hc => hno c (List.take_subset_take_left t (Nat.le_succ k) hc))]
    apply ends_succ h0 (by omega) (by omega)
    exact hno _ (by rw [List.mem_take_iff_getElem]; exact ⟨k, by omega, rfl⟩)

/-- `len` wraps in a component of more than 255 characters, which is then read again and again. -/
theorem not_ends (h0 : 0 ∉ t) (hlong : 255 < t.length) (hno : ∀ c ∈ t.take 256, stops st c = false) :
    ¬Ends wide (reading url st t 0) r := by
  have hchar : ∀ k, k ≤ 255 → ((t ++ [0])[k]?).getD 0 ≠ 0 ∧ stops st (((t ++ [0])[k]?).getD 0) = false := by
    intro k hk
    obtain ⟨hc, hne⟩ := getD_mem h0 (show k < t.length by omega)
    rw [hc]
    exact ⟨hne, hno _ (by rw [List.mem_take_iff_getElem]; exact ⟨k, by omega, rfl⟩)⟩
  apply never_ends (fun s => ∃ k ≤ 255, s = reading url st t k) ?_ ⟨0, by omega, rfl⟩
  rintro _ ⟨k, hk, rfl⟩
  refine ⟨(hchar k hk).1, fun s' hs' => ?_⟩
  rw [round, body_of_not_stops (hchar k hk).2, Option.bind_some] at hs'
  by_cases hlast : k = 255
  · refine ⟨0, by omega, ?_⟩
    subst hlast
    rw [show (reading url st t 255).len = UInt8.ofNat 0 from rfl, show (reading url st t 255).address = t from rfl,
      charAt_ofNat (by omega) (by omega)] at hs'
    simpa [reading] using hs'.symm
  · refine ⟨k + 1, by omega, ?_⟩
    rw [show (reading url st t k).len = UInt8.ofNat (k + 1) from rfl, show (reading url st t k).address = t from rfl,
      charAt_ofNat (by omega) (by omega)] at hs'
    simpa [reading] using hs'.symm

/-- A component is read over if 8 bits can count it. -/
theorem ends_part (h0 : 0 ∉ t) : Ends wide (reading url st t 0) r ↔
    (part st t).length ≤ 255 ∧ Ends wide (reading url st t (part st t).length) r := by
  have hpre : part st t = t.take (part st t).length := List.prefix_iff_eq_take.mp (List.takeWhile_prefix _)
  have hno : ∀ c ∈ part st t, stops st c = false := fun c hc => by simpa using List.mem_takeWhile_imp hc
  have hle : (part st t).length ≤ t.length := (List.takeWhile_prefix _).length_le
  by_cases hlen : (part st t).length ≤ 255
  · rw [and_iff_right hlen]
    exact ends_skip h0 hlen hle (fun c hc => hno c (hpre ▸ hc))
  · refine iff_of_false (not_ends h0 (by omega) (fun c hc => hno c ?_)) (fun h => hlen h.1)
    rw [hpre]
    exact List.take_subset_take_left t (by omega) hc

/-! ## The end of a component -/

theorem toNat_ofNat_le (hk : k ≤ 255) : (UInt8.ofNat k).toNat = k := by
  rw [UInt8.toNat_ofNat']
  omega

theorem substringCopy_left (h0 : 0 ∉ seg) (hk : seg.length ≤ 255) :
    substringCopy (seg ++ rest) (UInt8.ofNat seg.length) = some seg := by
  rw [substringCopy, toNat_ofNat_le hk, if_pos (by simp; omega), List.append_assoc, List.take_left' rfl,
    takeWhile_none h0]

theorem round_of_body (h : body wide s = some ⟨url, st, 0, t, c⟩) : round wide s = some (reading url st t 0) := by
  rw [round, h, Option.bind_some]
  show (charAt t (UInt8.ofNat 0)).map _ = _
  rw [charAt_ofNat (by omega) (by omega)]
  rfl

theorem reading_sep : reading url st (seg ++ c :: rest) seg.length =
    ⟨url, st, UInt8.ofNat (seg.length + 1), seg ++ c :: rest, c⟩ := by
  simp [reading]

theorem reading_end : reading url st t t.length = ⟨url, st, UInt8.ofNat (t.length + 1), t, 0⟩ := by
  simp [reading]

theorem part_sep (hno : ∀ a ∈ seg, stops st a = false) (hc : stops st c = true) : part st (seg ++ c :: rest) = seg := by
  rw [part, List.takeWhile_append_of_pos (fun a ha => by simp [hno a ha])]
  simp [hc]

theorem part_end (hno : ∀ a ∈ t, stops st a = false) : part st t = t :=
  List.takeWhile_eq_self_iff.mpr (fun a ha => by simp [hno a ha])

/-- Nothing ends the last component. -/
theorem ends_last (h0 : 0 ∉ t) (hno : ∀ a ∈ t, stops st a = false) :
    Ends wide (reading url st t 0) r ↔ t.length ≤ 255 ∧ r = reading url st t t.length := by
  rw [ends_part h0, part_end hno]
  exact and_congr_right (fun _ => ends_done (by rw [reading_end]))

/-- A component is followed by another one. -/
theorem ends_next {url' : Url} {st' : State} {t' : CString} (h0 : 0 ∉ seg ++ c :: rest)
    (hno : ∀ a ∈ seg, stops st a = false) (hc : stops st c = true)
    (hbody : seg.length ≤ 255 → ∃ c', body wide ⟨url, st, UInt8.ofNat (seg.length + 1), seg ++ c :: rest, c⟩ =
      some ⟨url', st', 0, t', c'⟩) :
    Ends wide (reading url st (seg ++ c :: rest) 0) r ↔ seg.length ≤ 255 ∧ Ends wide (reading url' st' t' 0) r := by
  rw [ends_part h0, part_sep hno hc]
  refine and_congr_right (fun hlen => ?_)
  obtain ⟨c', hbody⟩ := hbody hlen
  have hne : c ≠ 0 := fun h => h0 (by simp [h])
  rw [reading_sep]
  exact ends_of_round hne (round_of_body hbody)

/-! ## The states -/

theorem ends_uri (h0 : 0 ∉ t) :
    Ends wide (reading url .uri t 0) r ↔ t.length ≤ 255 ∧ r = reading url .uri t t.length :=
  ends_last h0 (fun _ _ => rfl)

/-- The number in front of the URI. -/
def portOf (wide : Bool) (num : CString) : Nat := (strtol wide num % 65536).toNat

theorem ends_port (h0 : 0 ∉ seg ++ slash :: rest) (hseg : slash ∉ seg) :
    Ends wide (reading url .port (seg ++ slash :: rest) 0) r ↔
      seg.length ≤ 255 ∧ Ends wide (reading { url with port := portOf wide seg } .uri (slash :: rest) 0) r := by
  have h0' : 0 ∉ seg := fun h => h0 (List.mem_append_left _ h)
  refine ends_next h0 (fun a ha => ?_) rfl (fun hlen => ⟨slash, ?_⟩)
  · simpa [stops] using ne_of_mem_of_not_mem ha hseg
  · rw [body]
    simp [substringCopy_left h0' hlen, toNat_ofNat_le hlen, slash, portOf]

theorem ends_port_last (h0 : 0 ∉ t) (hseg : slash ∉ t) :
    Ends wide (reading url .port t 0) r ↔ t.length ≤ 255 ∧ r = reading url .port t t.length :=
  ends_last h0 (fun a ha => by simpa [stops] using ne_of_mem_of_not_mem ha hseg)

theorem ends_host_port (h0 : 0 ∉ seg ++ 58 :: rest) (hcolon : 58 ∉ seg) (hslash : slash ∉ seg) :
    Ends wide (reading url .host (seg ++ 58 :: rest) 0) r ↔
      seg.length ≤ 255 ∧ Ends wide (reading { url with host := some seg } .port rest 0) r := by
  have h0' : 0 ∉ seg := fun h => h0 (List.mem_append_left _ h)
  refine ends_next h0 (fun a ha => ?_) rfl (fun hlen => ⟨58, ?_⟩)
  · simpa [stops] using ⟨ne_of_mem_of_not_mem ha hcolon, ne_of_mem_of_not_mem ha hslash⟩
  · rw [body]
    simp [substringCopy_left h0' hlen, toNat_ofNat_le hlen, List.drop_append]

theorem ends_host_uri (h0 : 0 ∉ seg ++ slash :: rest) (hcolon : 58 ∉ seg) (hslash : slash ∉ seg) :
    Ends wide (reading url .host (seg ++ slash :: rest) 0) r ↔ seg.length ≤ 255 ∧
      Ends wide (reading (handleScheme { url with host := some seg }) .uri (slash :: rest) 0) r := by
  have h0' : 0 ∉ seg := fun h => h0 (List.mem_append_left _ h)
  refine ends_next h0 (fun a ha => ?_) rfl (fun hlen => ⟨slash, ?_⟩)
  · simpa [stops] using ⟨ne_of_mem_of_not_mem ha hcolon, ne_of_mem_of_not_mem ha hslash⟩
  · rw [body]
    simp [substringCopy_left h0' hlen, toNat_ofNat_le hlen, slash]

theorem ends_host_last (h0 : 0 ∉ t) (hcolon : 58 ∉ t) (hslash : slash ∉ t) :
    Ends wide (reading url .host t 0) r ↔ t.length ≤ 255 ∧ r = reading url .host t t.length :=
  ends_last h0 (fun a ha => by
    simpa [stops] using ⟨ne_of_mem_of_not_mem ha hcolon, ne_of_mem_of_not_mem ha hslash⟩)

theorem body_ipv6 (h0 : 0 ∉ seg) (hlen : (91 :: seg).length ≤ 255) :
    body wide ⟨url, .ipv6, UInt8.ofNat ((91 :: seg).length + 1), 91 :: seg ++ 93 :: rest, 93⟩ =
      if rest.headD 0 = 58 then some ⟨{ url with host := some seg }, .port, 0, rest.tail, rest.headD 0⟩
      else some ⟨handleScheme { url with host := some seg }, .uri, 0, rest, rest.headD 0⟩ := by
  have hlen' : seg.length ≤ 255 := Nat.le_of_succ_le hlen
  have hsub : UInt8.ofNat ((91 :: seg).length + 1) - 2 = UInt8.ofNat seg.length := by
    rw [List.length_cons, Nat.add_assoc, UInt8.ofNat_add]
    exact UInt8.add_sub_cancel _ _
  have hcopy : substringCopy ((91 :: seg ++ 93 :: rest).drop 1) (UInt8.ofNat seg.length) = some seg :=
    substringCopy_left h0 hlen'
  have hchar : charAt ((91 :: seg ++ 93 :: rest).drop 2) (UInt8.ofNat seg.length) = some (rest.headD 0) := by
    rw [charAt_ofNat hlen' (by simp)]
    cases seg <;> cases rest <;> simp
  have hdrop : ∀ n, (91 :: seg ++ 93 :: rest).drop (2 + n + seg.length) = rest.drop n := by
    intro n
    have hsum : 2 + n + seg.length = (91 :: seg).length + (n + 1) := by
      rw [List.length_cons]
      omega
    rw [hsum, List.drop_length_add_append]
    rfl
  rw [body, if_neg (by simp), if_neg (by simp), if_neg (by simp), if_pos ⟨rfl, rfl⟩]
  dsimp only
  rw [hsub, hcopy, hchar, toNat_ofNat_le hlen', hdrop 1, hdrop 0]
  simp

theorem ends_ipv6_port (h0 : 0 ∉ 91 :: seg ++ 93 :: 58 :: rest) (hseg : 93 ∉ seg) :
    Ends wide (reading url .ipv6 (91 :: seg ++ 93 :: 58 :: rest) 0) r ↔
      seg.length ≤ 254 ∧ Ends wide (reading { url with host := some seg } .port rest 0) r := by
  rw [ends_next h0 (fun a ha => ?_) rfl
    (fun hlen => ⟨58, body_ipv6 (fun h => h0 (by simp [h])) hlen⟩), List.length_cons, Nat.succ_le_succ_iff]
  · rfl
  · simpa [stops] using ne_of_mem_of_not_mem ha (show (93 : UInt8) ∉ 91 :: seg by simp [hseg])

theorem ends_ipv6_uri (h0 : 0 ∉ 91 :: seg ++ 93 :: rest) (hseg : 93 ∉ seg) (hrest : rest.head? ≠ some 58) :
    Ends wide (reading url .ipv6 (91 :: seg ++ 93 :: rest) 0) r ↔
      seg.length ≤ 254 ∧ Ends wide (reading (handleScheme { url with host := some seg }) .uri rest 0) r := by
  have hhead : rest.headD 0 ≠ 58 := by
    cases rest with
    | nil => decide
    | cons c rest => simpa using hrest
  rw [ends_next h0 (fun a ha => ?_) rfl
    (fun hlen => ⟨rest.headD 0, (body_ipv6 (fun h => h0 (by simp [h])) hlen).trans (if_neg hhead)⟩),
    List.length_cons, Nat.succ_le_succ_iff]
  · simpa [stops] using ne_of_mem_of_not_mem ha (show (93 : UInt8) ∉ 91 :: seg by simp [hseg])

theorem ends_ipv6_last (h0 : 0 ∉ t) (hseg : 93 ∉ t) :
    Ends wide (reading url .ipv6 t 0) r ↔ t.length ≤ 255 ∧ r = reading url .ipv6 t t.length :=
  ends_last h0 (fun a ha => by simpa [stops] using ne_of_mem_of_not_mem ha hseg)

/-! ## The scheme -/

/-- A row of slashes is skipped. After the one with the number 255 the count begins again. -/
theorem skipSlashes_run {len : UInt8} {i m fuel : Nat} (hlen : len + 1 = UInt8.ofNat i) (hle : i + m ≤ 256)
    (hrun : ∀ k < m, t[i + k]? = some slash) :
    skipSlashes t (fuel + m) len = skipSlashes t fuel (len + UInt8.ofNat m) := by
  induction m generalizing len i with
  | zero => simp
  | succ m ih =>
    have hfirst : t[i]? = some slash := hrun 0 (Nat.zero_lt_succ m)
    obtain ⟨hi, hget⟩ := List.getElem?_eq_some_iff.mp hfirst
    have hchar : charAt t (len + 1) = some slash := by
      rw [hlen, charAt_ofNat (by omega) (by omega), List.getElem?_append_left hi, hfirst]
      rfl
    rw [show fuel + (m + 1) = fuel + m + 1 from rfl, skipSlashes, hchar, Option.bind_some, if_pos rfl]
    rw [ih (i := i + 1) (by rw [hlen, UInt8.ofNat_add]; rfl) (by omega)
      (fun k hk => by rw [Nat.add_right_comm]; exact hrun (k + 1) (by omega))]
    rw [UInt8.ofNat_add, UInt8.add_assoc, UInt8.add_comm 1]
    rfl

theorem skipSlashes_stop {len : UInt8} {i fuel : Nat} (hlen : len + 1 = UInt8.ofNat i) (hi : i ≤ 255)
    (hle : i ≤ t.length) (hc : (t.drop i).head? ≠ some slash) :
    skipSlashes t (fuel + 1) len = some ((t.drop i).headD 0, UInt8.ofNat i) := by
  have hget : ((t ++ [0])[i]?).getD 0 = (t.drop i).headD 0 := by
    rw [List.headD_eq_head?_getD, List.head?_drop]
    by_cases hlt : i < t.length
    · rw [List.getElem?_append_left hlt]
    · obtain rfl : i = t.length := by omega
      simp
  have hne : (t.drop i).headD 0 ≠ slash := by
    intro h
    cases hd : t.drop i with
    | nil =>
      rw [hd] at h
      exact absurd h (by decide)
    | cons a l =>
      rw [hd] at h hc
      exact hc (congrArg some h)
  rw [skipSlashes, hlen, charAt_ofNat hi hle, hget, Option.bind_some, if_neg hne]

/-- The text at which the scanner goes on behind the scheme: behind its slashes, or at the beginning of the address
    if the character 255 is still one of them. -/
def authority (scheme rest : CString) : CString :=
  if scheme.length + 1 + (rest.takeWhile (· = slash)).length ≤ 255 then rest.dropWhile (· = slash)
  else (scheme ++ 58 :: rest).dropWhile (· = slash)

theorem head_dropWhile_slash (t : CString) : (t.dropWhile (· = slash)).head? ≠ some slash := by
  intro h
  have hnot := List.head?_dropWhile_not (fun c => decide (c = slash)) t
  rw [h] at hnot
  simp at hnot

theorem drop_takeWhile_length (t : CString) (p : UInt8 → Bool) : t.drop (t.takeWhile p).length = t.dropWhile p := by
  have hdrop : (t.takeWhile p ++ t.dropWhile p).drop (t.takeWhile p).length = t.dropWhile p := List.drop_left
  rwa [List.takeWhile_append_dropWhile] at hdrop

theorem takeWhile_slash_get {k : Nat} (hk : k < (t.takeWhile (· = slash)).length) : t[k]? = some slash := by
  have hpre := (List.takeWhile_prefix (fun c => decide (c = slash)) (l := t)).getElem hk
  have hmem := List.mem_takeWhile_imp (List.getElem_mem hk)
  rw [List.getElem?_eq_getElem (Nat.lt_of_lt_of_le hk (List.takeWhile_prefix _).length_le), ← hpre]
  exact congrArg some (by simpa using hmem)

theorem skipSlashes_spec (hlen : seg.length ≤ 255) : ∃ i ≤ 255,
    skipSlashes (seg ++ 58 :: rest) 256 (UInt8.ofNat seg.length) =
      some ((authority seg rest).headD 0, UInt8.ofNat i) ∧
    (seg ++ 58 :: rest).drop i = authority seg rest := by
  have hlong : (seg ++ 58 :: rest).length = seg.length + 1 + rest.length := by
    simp
    omega
  have hget : ∀ k, (seg ++ 58 :: rest)[seg.length + 1 + k]? = rest[k]? := by
    intro k
    rw [List.getElem?_append_right (by omega), show seg.length + 1 + k - seg.length = k + 1 by omega]
    rfl
  unfold authority
  generalize hm : (rest.takeWhile (· = slash)).length = m
  have hmle : m ≤ rest.length := hm ▸ (List.takeWhile_prefix _).length_le
  have hrun : ∀ k < m, (seg ++ 58 :: rest)[seg.length + 1 + k]? = some slash := by
    intro k hk
    rw [hget]
    exact takeWhile_slash_get (hm ▸ hk)
  split
  · rename_i hle
    have hdrop : (seg ++ 58 :: rest).drop (seg.length + 1 + m) = rest.dropWhile (· = slash) := by
      rw [Nat.add_assoc, List.drop_length_add_append, Nat.add_comm 1, List.drop_succ_cons, ← hm]
      exact drop_takeWhile_length rest _
    have hle' : seg.length + 1 + m ≤ 256 := Nat.le_succ_of_le hle
    refine ⟨seg.length + 1 + m, hle, ?_, hdrop⟩
    rw [show 256 = 255 - m + 1 + m by omega, skipSlashes_run (i := seg.length + 1) (UInt8.ofNat_add _ _).symm hle' hrun,
      skipSlashes_stop (i := seg.length + 1 + m) ?_ hle (by omega) (hdrop ▸ head_dropWhile_slash rest), hdrop]
    rw [UInt8.ofNat_add, UInt8.ofNat_add]
    ac_rfl
  · rename_i hgt
    -- the count wraps, and the slashes at the beginning are skipped, which end before the colon
    have hdrop := drop_takeWhile_length (seg ++ 58 :: rest) (fun c => decide (c = slash))
    generalize hn : ((seg ++ 58 :: rest).takeWhile (· = slash)).length = n at hdrop
    have hnle : n ≤ seg.length := by
      by_contra hlt
      have hcolon := takeWhile_slash_get (t := seg ++ 58 :: rest) (k := seg.length) (by omega)
      rw [List.getElem?_append_right (Nat.le_refl _), Nat.sub_self] at hcolon
      exact absurd (Option.some.inj hcolon) (by decide)
    refine ⟨n, by omega, ?_, hdrop⟩
    have hlast : UInt8.ofNat seg.length + UInt8.ofNat (255 - seg.length) = UInt8.ofNat 255 := by
      rw [← UInt8.ofNat_add]
      congr 1
      omega
    have hfull : seg.length + 1 + (255 - seg.length) ≤ 256 := by omega
    rw [show 256 = seg.length + 1 + (255 - seg.length) by omega,
      skipSlashes_run (i := seg.length + 1) (UInt8.ofNat_add _ _).symm hfull (fun k hk => hrun k (by omega)), hlast,
      show seg.length + 1 = seg.length - n + 1 + n by omega,
      skipSlashes_run (i := 0) rfl (by omega)
        (fun k hk => by rw [Nat.zero_add]; exact takeWhile_slash_get (hn ▸ hk)),
      skipSlashes_stop (i := n) ?_ (by omega) (by omega) (hdrop ▸ head_dropWhile_slash _), hdrop]
    rw [UInt8.add_assoc, UInt8.add_comm, UInt8.add_assoc]
    exact UInt8.add_zero _

/-- The state in which the authority is read. -/
def authorityState (t : CString) : State := if t.head? = some 91 then .ipv6 else .host

theorem ends_scheme (h0 : 0 ∉ seg ++ 58 :: rest) (hseg : 58 ∉ seg) :
    Ends wide (reading url .scheme (seg ++ 58 :: rest) 0) r ↔ seg.length ≤ 255 ∧
      Ends wide (reading (handleSchemeForSecure { url with scheme := some seg })
        (authorityState (authority seg rest)) (authority seg rest) 0) r := by
  have h0' : 0 ∉ seg := fun h => h0 (List.mem_append_left _ h)
  refine ends_next h0 (fun a ha => ?_) rfl (fun hlen => ?_)
  · simpa [stops] using ne_of_mem_of_not_mem ha hseg
  · obtain ⟨i, hi, hskip, hdrop⟩ := @skipSlashes_spec seg rest hlen
    have hlen1 : UInt8.ofNat (seg.length + 1) - 1 = UInt8.ofNat seg.length := by simp
    have hstate : (if (authority seg rest).headD 0 = 91 then State.ipv6 else .host) =
        authorityState (authority seg rest) := by
      unfold authorityState
      cases authority seg rest <;> simp
    refine ⟨(authority seg rest).headD 0, ?_⟩
    rw [body, if_pos ⟨rfl, rfl⟩]
    dsimp only
    rw [hlen1, substringCopy_left h0' hlen, hskip]
    simp only [Option.bind_eq_bind, Option.bind_some, toNat_ofNat_le hi, hdrop, hstate]

theorem ends_scheme_last (h0 : 0 ∉ t) (hseg : 58 ∉ t) :
    Ends wide (reading url .scheme t 0) r ↔ t.length ≤ 255 ∧ r = reading url .scheme t t.length :=
  ends_last h0 (fun a ha => by simpa [stops] using ne_of_mem_of_not_mem ha hseg)

/-- The first character is looked at twice. -/
theorem ends_first (h0 : 0 ∉ t) (hne : t ≠ []) (hcolon : t.head? ≠ some 58) :
    Ends wide (first t) r ↔ Ends wide (reading (first t).url .scheme t 0) r := by
  cases t with
  | nil => exact absurd rfl hne
  | cons c t =>
    have hc : c ≠ 58 := by simpa using hcolon
    have hc0 : c ≠ 0 := fun h => h0 (by simp [h])
    apply ends_of_round hc0
    exact round_of_body (body_of_not_stops (by simpa [first, stops] using hc))

/-- A colon in front: `len` is rewound to 255. -/
theorem ends_first_colon : Ends wide (first (58 :: rest)) r ↔
    253 ≤ rest.length ∧ Ends wide (reading (handleSchemeForSecure { (first (58 :: rest)).url with
      scheme := some (((58 :: rest ++ [0]).take 255).takeWhile (· ≠ 0)) }) .host (58 :: rest) 0) r := by
  have hskip : skipSlashes (58 :: rest) 256 255 = some (58, 0) := rfl
  by_cases hlen : 253 ≤ rest.length
  · rw [and_iff_right hlen]
    apply ends_of_round (by simp [first])
    apply round_of_body (c := 58)
    have hcopy : substringCopy (58 :: rest) 255 = some (((58 :: rest ++ [0]).take 255).takeWhile (· ≠ 0)) :=
      if_pos (by simp; omega)
    rw [body, if_pos ⟨rfl, rfl⟩]
    show ((substringCopy (58 :: rest) 255).bind fun _ => (skipSlashes (58 :: rest) 256 255).bind _) = _
    rw [hcopy, hskip]
    rfl
  · refine iff_of_false (fun h => ?_) (fun h => hlen h.1)
    obtain ⟨s', hs', -⟩ := (ends_round (by simp [first])).mp h
    have hcopy : substringCopy (58 :: rest) 255 = none := if_neg (by simp; omega)
    have hbody : body wide (first (58 :: rest)) = none := by
      rw [body, if_pos ⟨rfl, rfl⟩]
      show ((substringCopy (58 :: rest) 255).bind _) = _
      rw [hcopy]
      rfl
    rw [round, hbody] at hs'
    cases hs'

/-! ## What 8 bits can count -/

/-- The part of `t` that is inside of a component has at most 255 characters. -/
def Counted (inside : UInt8 → Bool) (t : CString) : Prop := (t.takeWhile inside).length ≤ 255

/-- A character that does not end a host. -/
def insideHost (c : UInt8) : Bool := c ≠ 58 ∧ c ≠ slash

/-- A port, with the URI behind it. -/
def PortShort (t : CString) : Prop := Counted (· ≠ slash) t ∧ (t.dropWhile (· ≠ slash)).length ≤ 255

/-- What follows a host: a port behind a colon, or the URI. -/
def RestShort (t : CString) : Prop := if t.head? = some 58 then PortShort t.tail else t.length ≤ 255

/-- A host with what follows it. -/
def HostShort (t : CString) : Prop := Counted insideHost t ∧ RestShort (t.dropWhile insideHost)

/-- A host in brackets with what follows it. -/
def BracketShort (t : CString) : Prop := Counted (· ≠ 93) t ∧ RestShort (t.dropWhile (· ≠ 93)).tail

/-- An authority with what follows it. -/
def AuthorityShort (t : CString) : Prop := if t.head? = some 91 then BracketShort t else HostShort t

/-- Every component that the scanner reads has at most 255 characters. If the address begins with a colon, 255 are
    copied for the scheme. -/
def PartsShort (address : CString) : Prop :=
  if address.head? = some 58 then 254 ≤ address.length ∧ HostShort address
  else Counted (· ≠ 58) address ∧ (58 ∈ address →
    AuthorityShort (authority (address.takeWhile (· ≠ 58)) (address.dropWhile (· ≠ 58)).tail))

instance (inside : UInt8 → Bool) (t : CString) : Decidable (Counted inside t) :=
  inferInstanceAs (Decidable ((t.takeWhile inside).length ≤ 255))

instance : DecidablePred PortShort := fun t =>
  inferInstanceAs (Decidable (Counted (· ≠ slash) t ∧ (t.dropWhile (· ≠ slash)).length ≤ 255))

instance : DecidablePred RestShort := fun t =>
  inferInstanceAs (Decidable (if t.head? = some 58 then PortShort t.tail else t.length ≤ 255))

instance : DecidablePred HostShort := fun t =>
  inferInstanceAs (Decidable (Counted insideHost t ∧ RestShort (t.dropWhile insideHost)))

instance : DecidablePred BracketShort := fun t =>
  inferInstanceAs (Decidable (Counted (· ≠ 93) t ∧ RestShort (t.dropWhile (· ≠ 93)).tail))

instance : DecidablePred AuthorityShort := fun t =>
  inferInstanceAs (Decidable (if t.head? = some 91 then BracketShort t else HostShort t))

instance : DecidablePred PartsShort := fun address => inferInstanceAs (Decidable
  (if address.head? = some 58 then 254 ≤ address.length ∧ HostShort address
  else Counted (· ≠ 58) address ∧ (58 ∈ address →
    AuthorityShort (authority (address.takeWhile (· ≠ 58)) (address.dropWhile (· ≠ 58)).tail))))

/-- The loop that begins with `s` ends, and what follows it stays in the address. -/
def Returns (wide : Bool) (s : Scan) : Prop := ∃ r, Ends wide s r ∧ (finish r).isSome

theorem substringCopy_end (hlen : t.length ≤ 254) : (substringCopy t (UInt8.ofNat (t.length + 1))).isSome := by
  rw [substringCopy, toNat_ofNat_le (by omega), if_pos (Nat.le_refl _)]
  rfl

theorem finish_isSome (hlen : t.length ≤ 255) : (finish (reading url st t t.length)).isSome := by
  rw [reading_end]
  by_cases hfull : t.length = 255
  · rw [hfull]
    cases st <;> rfl
  · have hcopy := substringCopy_end (t := t) (by omega)
    cases st with
    | scheme => rfl
    | port => rfl
    | host | ipv6 | uri =>
      simp only [finish]
      split
      · rfl
      · rw [Option.isSome_map]
        exact hcopy

theorem returns_last (h : ∀ r, Ends wide s r ↔ t.length ≤ 255 ∧ r = reading url st t t.length) :
    Returns wide s ↔ t.length ≤ 255 := by
  constructor
  · rintro ⟨r, hr, -⟩
    exact ((h r).mp hr).1
  · intro hlen
    exact ⟨_, (h _).mpr ⟨hlen, rfl⟩, finish_isSome hlen⟩

theorem returns_next {p : Prop} (h : ∀ r, Ends wide s r ↔ p ∧ Ends wide s' r) :
    Returns wide s ↔ p ∧ Returns wide s' := by
  simp only [Returns, h, and_assoc, exists_and_left]

theorem returns_uri (h0 : 0 ∉ t) : Returns wide (reading url .uri t 0) ↔ t.length ≤ 255 :=
  returns_last (fun _ => ends_uri h0)

theorem returns_port (h0 : 0 ∉ t) : Returns wide (reading url .port t 0) ↔ PortShort t := by
  unfold PortShort Counted
  rcases sep_cases slash t with hno | ⟨seg, rest, rfl, hno⟩
  · rw [returns_last (fun _ => ends_port_last h0 hno), takeWhile_none hno, dropWhile_none hno]
    exact (and_iff_left (Nat.zero_le _)).symm
  · rw [returns_next (fun _ => ends_port h0 hno), returns_uri (fun h => h0 (List.mem_append_right _ h)),
      takeWhile_sep hno, dropWhile_sep hno]

theorem insideHost_mem (hno : ∀ a ∈ seg, insideHost a = true) : 58 ∉ seg ∧ slash ∉ seg :=
  ⟨fun h => absurd (hno _ h) (by decide), fun h => absurd (hno _ h) (by decide)⟩

/-- A host goes to the end of the text, or up to a colon or a slash. -/
theorem host_cases (t : CString) : (∀ a ∈ t, insideHost a = true) ∨ ∃ seg c rest, t = seg ++ c :: rest ∧
    (∀ a ∈ seg, insideHost a = true) ∧ (c = 58 ∨ c = slash) := by
  have hin : ∀ a ∈ t.takeWhile insideHost, insideHost a = true := fun a ha => List.mem_takeWhile_imp ha
  have hsplit := List.takeWhile_append_dropWhile (p := insideHost) (l := t)
  cases hd : t.dropWhile insideHost with
  | nil =>
    rw [hd, List.append_nil] at hsplit
    exact .inl (hsplit ▸ hin)
  | cons c rest =>
    have hout := List.head?_dropWhile_not insideHost t
    rw [hd] at hout hsplit
    refine .inr ⟨_, c, rest, hsplit.symm, hin, ?_⟩
    simpa [insideHost, not_and_or, or_iff_not_imp_left] using hout

theorem takeWhile_host (hno : ∀ a ∈ seg, insideHost a = true) (hc : c = 58 ∨ c = slash) :
    (seg ++ c :: rest).takeWhile insideHost = seg ∧ (seg ++ c :: rest).dropWhile insideHost = c :: rest := by
  have hc' : insideHost c = false := by rcases hc with rfl | rfl <;> rfl
  rw [List.takeWhile_append_of_pos hno, List.dropWhile_append_of_pos hno]
  simp [hc']

theorem returns_host (h0 : 0 ∉ t) : Returns wide (reading url .host t 0) ↔ HostShort t := by
  unfold HostShort Counted
  rcases host_cases t with hno | ⟨seg, c, rest, rfl, hno, hc⟩
  · obtain ⟨hcolon, hslash⟩ := insideHost_mem hno
    rw [returns_last (fun _ => ends_host_last h0 hcolon hslash), List.takeWhile_eq_self_iff.mpr hno,
      List.dropWhile_eq_nil_iff.mpr hno]
    exact (and_iff_left (by simp [RestShort])).symm
  · obtain ⟨hcolon, hslash⟩ := insideHost_mem hno
    obtain ⟨htake, hdrop⟩ := @takeWhile_host seg rest c hno hc
    rw [htake, hdrop]
    rcases hc with rfl | rfl
    · rw [returns_next (fun _ => ends_host_port h0 hcolon hslash),
        returns_port (fun h => h0 (List.mem_append_right _ (List.mem_cons_of_mem _ h)))]
      rfl
    · rw [returns_next (fun _ => ends_host_uri h0 hcolon hslash), returns_uri (fun h => h0 (List.mem_append_right _ h))]
      rfl

theorem returns_ipv6 (h0 : 0 ∉ 91 :: t) : Returns wide (reading url .ipv6 (91 :: t) 0) ↔ BracketShort (91 :: t) := by
  unfold BracketShort Counted
  rcases sep_cases 93 t with hno | ⟨seg, rest, rfl, hno⟩
  · have hno' : (93 : UInt8) ∉ 91 :: t := by simp [hno]
    rw [returns_last (fun _ => ends_ipv6_last h0 hno'), takeWhile_none hno', dropWhile_none hno']
    exact (and_iff_left (by simp [RestShort])).symm
  · have hno' : (93 : UInt8) ∉ 91 :: seg := by simp [hno]
    have hlen : (91 :: seg).length ≤ 255 ↔ seg.length ≤ 254 := Nat.succ_le_succ_iff
    have h0' : 0 ∉ rest := fun h => h0 (by simp [h])
    rw [← List.cons_append, takeWhile_sep hno', dropWhile_sep hno', hlen]
    rw [← List.cons_append] at h0
    by_cases hcolon : rest.head? = some 58
    · obtain ⟨rest, rfl⟩ := List.head?_eq_some_iff.mp hcolon
      rw [returns_next (fun _ => ends_ipv6_port h0 hno), returns_port (fun h => h0' (List.mem_cons_of_mem _ h))]
      rfl
    · rw [returns_next (fun _ => ends_ipv6_uri h0 hno hcolon), returns_uri h0', RestShort, List.tail_cons,
        if_neg hcolon]

theorem returns_authority (h0 : 0 ∉ t) : Returns wide (reading url (authorityState t) t 0) ↔ AuthorityShort t := by
  unfold authorityState AuthorityShort
  split
  · rename_i hhead
    obtain ⟨t, rfl⟩ := List.head?_eq_some_iff.mp hhead
    exact returns_ipv6 h0
  · exact returns_host h0

theorem zero_notMem_authority (h0 : 0 ∉ seg ++ 58 :: rest) : 0 ∉ authority seg rest := by
  unfold authority
  split
  · exact fun h => h0 (by simp [(List.dropWhile_suffix _).subset h])
  · exact fun h => h0 ((List.dropWhile_suffix _).subset h)

theorem returns_first (h0 : 0 ∉ t) : Returns wide (first t) ↔ PartsShort t := by
  unfold PartsShort
  split
  · rename_i hcolon
    obtain ⟨t, rfl⟩ := List.head?_eq_some_iff.mp hcolon
    rw [returns_next (fun _ => ends_first_colon), returns_host h0, List.length_cons, Nat.succ_le_succ_iff]
  · rename_i hcolon
    rcases sep_cases 58 t with hno | ⟨seg, rest, rfl, hno⟩
    · rw [Counted, takeWhile_none hno]
      by_cases hnil : t = []
      · subst hnil
        refine iff_of_true ⟨first [], (ends_done rfl).mpr rfl, rfl⟩ ⟨Nat.zero_le _, fun h => ?_⟩
        cases h
      · have hfirst : Returns wide (first t) ↔ Returns wide (reading (first t).url .scheme t 0) := by
          simp only [Returns, ends_first h0 hnil hcolon]
        rw [hfirst, returns_last (fun _ => ends_scheme_last h0 hno)]
        exact (and_iff_left (fun h => absurd h hno)).symm
    · have hfirst : Returns wide (first (seg ++ 58 :: rest)) ↔
          Returns wide (reading (first (seg ++ 58 :: rest)).url .scheme (seg ++ 58 :: rest) 0) := by
        simp only [Returns, ends_first h0 (by simp) hcolon]
      rw [hfirst, returns_next (fun _ => ends_scheme h0 hno), returns_authority (zero_notMem_authority h0), Counted,
        takeWhile_sep hno, dropWhile_sep hno]
      simp

theorem parse_returns {address : CString} :
    (∃ fuel result, dslinkUrlParse wide fuel address = some result) ↔ Returns wide (first address) := by
  constructor
  · rintro ⟨fuel, result, h⟩
    obtain ⟨r, hr, hf⟩ := Option.bind_eq_some_iff.mp h
    exact ⟨r, ⟨fuel, hr⟩, by rw [hf]; rfl⟩
  · rintro ⟨r, ⟨fuel, hr⟩, hf⟩
    obtain ⟨result, hf⟩ := Option.isSome_iff_exists.mp hf
    exact ⟨fuel, result, by rw [dslinkUrlParse, hr]; exact hf⟩

/-- **Termination.** `dslink_url_parse` returns, and reads nothing behind the terminator, exactly where 8 bits can
    count the characters of each component. -/
theorem url_parse_ends_iff (wide : Bool) (address : CString) (h0 : 0 ∉ address) :
    (∃ fuel result, dslinkUrlParse wide fuel address = some result) ↔ PartsShort address :=
  parse_returns.trans (returns_first h0)

theorem url_parse_ends_iff_conn :
    (∃ fuel result, dslinkUrlParse true fuel (cstr "http://127.0.0.1:8100/conn") = some result) ↔
      PartsShort (cstr "http://127.0.0.1:8100/conn") :=
  url_parse_ends_iff true (cstr "http://127.0.0.1:8100/conn") (by decide)

/-- A URI of 256 characters. -/
def longUri : CString := cstr "http://h/" ++ List.replicate 255 97

/-- The scanner does not come to the end of a URI of 256 characters, and the address ":" is left behind. -/
theorem long_uri_never : ¬(∃ fuel result, dslinkUrlParse true fuel longUri = some result) ∧
    ¬(∃ fuel result, dslinkUrlParse true fuel (cstr ":") = some result) := by
  rw [parse_returns, parse_returns, returns_first (by decide), returns_first (by decide)]
  exact ⟨by decide +kernel, by decide⟩

end Url

end DSLink
