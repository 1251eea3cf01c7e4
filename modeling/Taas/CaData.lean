import Mathlib.Data.Bool.AllAny
import Taas.Base64
import Taas.Fallible
import Taas.TextOps

/-!
The normalisation of a certificate bundle by `normalize_ca_data`. The bundle comes as it is, with
its newlines escaped or in base64. All of them end in the same text, and a text that was normalised
stays as it is.
-/
namespace Taas.CaData

open TextOps

abbrev Str := List Char

def pemCertMarker : Str := "-----BEGIN CERTIFICATE-----".toList

/-- `str.isspace` of one character. -/
def isSpace (c : Char) : Bool :=
  (9 ≤ c.toNat && c.toNat ≤ 13) || (28 ≤ c.toNat && c.toNat ≤ 32) || c.toNat == 0x85 ||
    c.toNat == 0xa0 || c.toNat == 0x1680 || (0x2000 ≤ c.toNat && c.toNat ≤ 0x200a) ||
    c.toNat == 0x2028 || c.toNat == 0x2029 || c.toNat == 0x202f || c.toNat == 0x205f ||
    c.toNat == 0x3000

/-- `text.encode('ascii')` of a text in ASCII. -/
def asciiEncode (text : Str) : List UInt8 := text.map fun c => .ofNat c.toNat

/-- `data.decode('ascii')`; `none` is a `UnicodeDecodeError`. -/
def asciiDecode : List UInt8 → Option Str
  | [] => some []
  | x :: bytes => if x < 128 then (asciiDecode bytes).map (.ofNat x.toNat :: ·) else none

/-- `base64.b64decode(compact, validate=True)`; `none` is a `binascii.Error`. -/
def b64decode (compact : Str) : Except String (Option (List UInt8)) :=
  if compact.all fun c => c.toNat < 128 then .ok (Base64.decode compact)
  else .error "string argument should contain only ASCII characters"

/-- The branch for what is no PEM text. -/
def unwrap (data : Str) : Except String Str := do
  let compact := (split isSpace data).flatten
  match (← b64decode compact).bind asciiDecode with
  | some text => .ok (strip isSpace text)
  | none => .error "KAFKA_CA_DATA is neither PEM nor base64-encoded PEM"

/-- `data.replace('\\n', '\n').strip()` -/
def unescape (data : Str) : Str := strip isSpace (replacePair '\\' 'n' '\n' data)

def normalizeCaData (raw : Str) : Except String Str := do
  let data := strip isSpace raw
  let data ← (if pemCertMarker <:+: data then .ok data else unwrap data)
  let data := unescape data
  if pemCertMarker <:+: data then .ok (data ++ ['\n'])
  else .error "KAFKA_CA_DATA does not contain a '-----BEGIN CERTIFICATE-----' block"

/-- The text with every newline replaced by a backslash and an n. -/
def flattened (text : Str) : Str := expand '\\' 'n' '\n' text

/-- What the normalisation promises of its result. -/
structure Normalized (result : Str) : Prop where
  marker : pemCertMarker <:+: result
  newline : ∃ body c, result = body ++ [c, '\n'] ∧ isSpace c = false
  unescaped : ¬['\\', 'n'] <:+: result
  stable : normalizeCaData result = .ok result

variable {raw text data result : Str}

theorem marker_strip (h : pemCertMarker <:+: data) : pemCertMarker <:+: strip isSpace data :=
  infix_strip h (by decide) (by decide) (by decide)

theorem marker_replacePair (h : pemCertMarker <:+: data) :
    pemCertMarker <:+: replacePair '\\' 'n' '\n' data :=
  infix_replacePair h (by decide) (by decide)

theorem marker_unescape (h : pemCertMarker <:+: data) : pemCertMarker <:+: unescape data :=
  marker_strip (marker_replacePair h)

theorem marker_flattened (h : pemCertMarker <:+: text) : pemCertMarker <:+: flattened text := by
  obtain ⟨l, r, rfl⟩ := h
  have hmarker : expand '\\' 'n' '\n' pemCertMarker = pemCertMarker :=
    expand_of_not_mem (by decide)
  refine ⟨flattened l, flattened r, ?_⟩
  simp only [flattened, expand_append, hmarker]

theorem unescape_strip (data : Str) : unescape (strip isSpace data) = unescape data :=
  strip_replacePair_strip (by decide) (by decide) data

theorem unescape_flattened (text : Str) : unescape (flattened text) = unescape text := by
  rw [unescape, flattened, replacePair_expand (by decide) (by decide) (by decide), unescape]

theorem normalize_of_marker (h : pemCertMarker <:+: raw) :
    normalizeCaData raw = .ok (unescape raw ++ ['\n']) := by
  have hstrip := marker_strip h
  have hclean := marker_unescape h
  simp only [normalizeCaData, if_pos hstrip, bind, Except.bind, unescape_strip, if_pos hclean]

theorem asciiDecode_asciiEncode (h : ∀ c ∈ text, c.toNat < 128) :
    asciiDecode (asciiEncode text) = some text := by
  induction text with
  | nil => rfl
  | cons c text ih =>
    have hc := h c (List.mem_cons_self ..)
    have htext := ih fun d hd => h d (List.mem_cons_of_mem c hd)
    have hsmall : (UInt8.ofNat c.toNat).toNat = c.toNat := by
      rw [UInt8.toNat_ofNat']
      omega
    have hlt : UInt8.ofNat c.toNat < 128 := by
      rw [UInt8.lt_iff_toNat_lt, hsmall]
      exact hc
    have hcons : asciiEncode (c :: text) = .ofNat c.toNat :: asciiEncode text := rfl
    rw [hcons, asciiDecode, if_pos hlt, htext, hsmall, Char.ofNat_toNat]
    rfl

theorem alphabet_plain {c : Char} (h : c ∈ Base64.alphabet ∨ c = '=') :
    c.toNat < 128 ∧ c ≠ '-' ∧ isSpace c = false := by
  have halphabet : ∀ c ∈ Base64.alphabet, c.toNat < 128 ∧ c ≠ '-' ∧ isSpace c = false :=
    List.all_iff_forall_prop.mp (by decide +kernel)
  cases h with
  | inl h => exact halphabet c h
  | inr h =>
    rw [h]
    decide

theorem filter_strip (data : Str) :
    (strip isSpace data).filter (!isSpace ·) = data.filter (!isSpace ·) := by
  obtain ⟨l, r, hl, hr, hdata⟩ := exists_strip isSpace data
  have hnil (s : Str) (hs : ∀ c ∈ s, isSpace c = true) : s.filter (!isSpace ·) = [] := by
    simpa [List.filter_eq_nil_iff] using hs
  conv_rhs => rw [hdata]
  simp only [List.filter_append, hnil l hl, hnil r hr, List.nil_append, List.append_nil]

theorem unwrap_encode (hascii : ∀ c ∈ text, c.toNat < 128)
    (hdata : data.filter (!isSpace ·) = Base64.encode (asciiEncode text)) :
    unwrap data = .ok (strip isSpace text) := by
  have hplain : (Base64.encode (asciiEncode text)).all fun c => c.toNat < 128 :=
    List.all_iff_forall_prop.mpr fun c hc => (alphabet_plain (Base64.mem_encode _ hc)).1
  simp only [unwrap, flatten_split, hdata, b64decode, if_pos hplain, bind, Except.bind,
    Base64.decode_encode, Option.bind_some, asciiDecode_asciiEncode hascii]

/-- No minus sign stands in a base64 text, with blanks in it or not. -/
theorem not_marker_encode {bytes : List UInt8}
    (hdata : data.filter (!isSpace ·) = Base64.encode bytes) : ¬pemCertMarker <:+: data := by
  intro h
  have hmem : '-' ∈ data.filter (!isSpace ·) :=
    List.mem_filter.mpr ⟨h.subset (by decide), by decide⟩
  rw [hdata] at hmem
  exact (alphabet_plain (Base64.mem_encode bytes hmem)).2.1 rfl

theorem normalize_of_base64 (hascii : ∀ c ∈ text, c.toNat < 128) (h : pemCertMarker <:+: text)
    (hraw : raw.filter (!isSpace ·) = Base64.encode (asciiEncode text)) :
    normalizeCaData raw = .ok (unescape text ++ ['\n']) := by
  have hstrip : (strip isSpace raw).filter (!isSpace ·) = Base64.encode (asciiEncode text) := by
    rw [filter_strip, hraw]
  simp only [normalizeCaData, if_neg (not_marker_encode hstrip), unwrap_encode hascii hstrip, bind,
    Except.bind, unescape_strip, if_pos (marker_unescape h)]

theorem exists_of_ok (h : normalizeCaData raw = .ok result) :
    ∃ data, pemCertMarker <:+: unescape data ∧ result = unescape data ++ ['\n'] := by
  obtain ⟨data, _, h⟩ := Fallible.bind_ok h
  dsimp only at h
  split at h
  · rename_i hmarker
    cases h
    exact ⟨data, hmarker, rfl⟩
  · cases h

theorem not_pair_unescape (data : Str) : ¬['\\', 'n'] <:+: unescape data := by
  intro h
  obtain ⟨l, r, _, _, hs⟩ := exists_strip isSpace (replacePair '\\' 'n' '\n' data)
  refine not_infix_replacePair (by decide) (by decide) data (h.trans ⟨l, r, hs.symm⟩)

theorem unescape_unescape (data : Str) : unescape (unescape data) = unescape data := by
  conv_lhs => rw [unescape]
  rw [replacePair_of_no_pair (not_pair_unescape data), unescape, strip_strip]

theorem normalized_of_ok (h : normalizeCaData raw = .ok result) : Normalized result := by
  obtain ⟨data, hmarker, rfl⟩ := exists_of_ok h
  have hne : unescape data ≠ [] := by
    intro hnil
    rw [hnil] at hmarker
    exact absurd hmarker (by decide)
  obtain ⟨init, c, hlast, hc⟩ := strip_last hne
  have hmarker' : pemCertMarker <:+: unescape data ++ ['\n'] :=
    hmarker.trans (List.prefix_append _ _).isInfix
  refine ⟨hmarker', ⟨init, c, ?_, hc⟩, ?_, ?_⟩
  · rw [unescape, hlast]
    simp
  · intro hpair
    -- a pair at the end would end in the newline
    cases List.infix_concat_iff.mp hpair with
    | inl hsuffix =>
      obtain ⟨l, hl⟩ := hsuffix
      have hlast := congrArg List.getLast? hl
      simp at hlast
    | inr hinfix => exact not_pair_unescape data hinfix
  · have hstrip : strip isSpace (unescape data ++ ['\n']) = unescape data := by
      have := strip_append (l := []) (s := unescape data) (r := ['\n']) (p := isSpace) (by simp)
        (List.all_eq_true.mp (by decide))
      simpa [unescape] using this
    rw [normalize_of_marker hmarker', ← unescape_strip, hstrip, unescape_unescape]

/-- Every carrier of a text in ASCII with the marker normalises to one text, and what is accepted
is normalised. -/
theorem normalize_ca_data_correct :
    (∀ text : Str, (∀ c ∈ text, c.toNat < 128) → pemCertMarker <:+: text →
      ∃ result, normalizeCaData text = .ok result ∧
        (∀ before after, (∀ c ∈ before, isSpace c = true) → (∀ c ∈ after, isSpace c = true) →
          normalizeCaData (before ++ text ++ after) = .ok result) ∧
        normalizeCaData (flattened text) = .ok result ∧
        normalizeCaData (Base64.encode (asciiEncode text)) = .ok result ∧
        ∀ spaced : Str, spaced.filter (!isSpace ·) = Base64.encode (asciiEncode text) →
          normalizeCaData spaced = .ok result) ∧
      ∀ raw result, normalizeCaData raw = .ok result → Normalized result := by
  refine ⟨?_, fun raw result h => normalized_of_ok h⟩
  intro text hascii hmarker
  refine ⟨unescape text ++ ['\n'], normalize_of_marker hmarker, ?_, ?_, ?_, ?_⟩
  · intro before after hbefore hafter
    have hmarker' : pemCertMarker <:+: before ++ text ++ after :=
      hmarker.trans ⟨before, after, rfl⟩
    rw [normalize_of_marker hmarker', ← unescape_strip, strip_append hbefore hafter, unescape_strip]
  · rw [normalize_of_marker (marker_flattened hmarker), unescape_flattened]
  · apply normalize_of_base64 hascii hmarker
    rw [List.filter_eq_self]
    intro c hc
    simp [(alphabet_plain (Base64.mem_encode _ hc)).2.2]
  · intro spaced hspaced
    exact normalize_of_base64 hascii hmarker hspaced

theorem normalize_ca_data_correct_certificate :
    normalizeCaData (flattened (pemCertMarker ++ ['\n'])) = .ok (pemCertMarker ++ ['\n']) := by
  obtain ⟨result, hplain, _, hflat, _⟩ := normalize_ca_data_correct.1 (pemCertMarker ++ ['\n'])
    (List.all_iff_forall_prop.mp (by decide)) (by decide)
  have hresult : normalizeCaData (pemCertMarker ++ ['\n']) = .ok (pemCertMarker ++ ['\n']) := by
    decide +kernel
  rw [hflat, ← hplain, hresult]

end Taas.CaData
