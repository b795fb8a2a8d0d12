import OpenViking.Crypto.Envelope

/-!
# The envelope codecs

Both parsers take an envelope apart in the same way.  Both builders put it
together again, and the Rust builder does so only while the three lengths fit
the header: it narrows longer ones without an error.
-/

namespace OpenViking
namespace Crypto

open Paths List Python UInt8
open Words

namespace Envelope

variable {P : Type}

/-- The three lengths fit the header. -/
def Fits (parts : Envelope P) : Prop :=
  parts.encryptedFileKey.length < 2 ^ 16 ∧ parts.keyIv.length < 2 ^ 16 ∧
    parts.dataIv.length < 2 ^ 16

instance (parts : Envelope P) : Decidable parts.Fits :=
  inferInstanceAs (Decidable (_ ∧ _ ∧ _))

/-- The three parts and the content one after the other. -/
def body (parts : Envelope P) : List UInt8 :=
  parts.encryptedFileKey ++ (parts.keyIv ++
    (parts.dataIv ++ parts.encryptedContent))

/-- The parts of a body, by their lengths. -/
def ofBody (providerType : P) (efkLen kivLen divLen : Nat)
    (rest : List UInt8) : Envelope P :=
  { providerType := providerType
    encryptedFileKey := rest.take efkLen
    keyIv := (rest.drop efkLen).take kivLen
    dataIv := (rest.drop (efkLen + kivLen)).take divLen
    encryptedContent := rest.drop (efkLen + kivLen + divLen) }

theorem body_ofBody (providerType : P) (efkLen kivLen divLen : Nat)
    (rest : List UInt8) :
    (ofBody providerType efkLen kivLen divLen rest).body = rest := by
  rw [body, ofBody]
  dsimp only
  rw [← drop_drop (i := divLen), take_append_drop,
    ← drop_drop (i := kivLen), take_append_drop,
    take_append_drop]

theorem ofBody_body (parts : Envelope P) :
    ofBody parts.providerType parts.encryptedFileKey.length
      parts.keyIv.length parts.dataIv.length parts.body = parts := by
  have hkiv : parts.body.drop parts.encryptedFileKey.length =
      parts.keyIv ++ (parts.dataIv ++ parts.encryptedContent) :=
    drop_left
  have hdiv : parts.body.drop
      (parts.encryptedFileKey.length + parts.keyIv.length) =
        parts.dataIv ++ parts.encryptedContent := by
    rw [← drop_drop, hkiv, drop_left]
  have hcontent : parts.body.drop (parts.encryptedFileKey.length +
      parts.keyIv.length + parts.dataIv.length) =
        parts.encryptedContent := by
    rw [← drop_drop, hdiv, drop_left]
  rw [ofBody, hkiv, hdiv, hcontent, take_left, take_left, body,
    take_left]

theorem length_body (parts : Envelope P) :
    parts.body.length = parts.encryptedFileKey.length +
      parts.keyIv.length + parts.dataIv.length +
        parts.encryptedContent.length := by
  simp only [body, length_append]
  omega

end Envelope

theorem bigEndian_two (n : Nat) :
    bigEndian 2 n = [ofNat (n / 256), ofNat n] :=
  rfl

theorem ofBigEndian_one (b : UInt8) : ofBigEndian [b] = b.toNat := by
  simp [ofBigEndian]

variable {data : List UInt8}

theorem exists_header (h : headerSize ≤ data.length) :
    exists b₀ b₁ b₂ b₃ b₄ b₅ b₆ b₇ b₈ b₉ b₁₀ b₁₁ : UInt8,
      exists rest : List UInt8, data =
        b₀ :: b₁ :: b₂ :: b₃ :: b₄ :: b₅ :: b₆ :: b₇ :: b₈ :: b₉ :: b₁₀ ::
          b₁₁ :: rest := by
  match data, h with
  | b₀ :: b₁ :: b₂ :: b₃ :: b₄ :: b₅ :: b₆ :: b₇ :: b₈ :: b₉ :: b₁₀ ::
      b₁₁ :: rest, _ =>
      exact ⟨b₀, b₁, b₂, b₃, b₄, b₅, b₆, b₇, b₈, b₉, b₁₀, b₁₁, rest, rfl⟩

theorem Rust.slice_eq {start stop : Nat}
    (h : start ≤ stop) (hstop : stop ≤ data.length) :
    Rust.slice data start stop = .ok (Python.slice data start stop) := by
  rw [Rust.slice, if_pos ⟨h, hstop⟩]
  rfl

theorem Python.slices_behind {rest : List UInt8} {n : Nat}
    (hdrop : data.drop n = rest) (efkLen kivLen divLen : Nat) :
    slice data n (n + efkLen) = rest.take efkLen ∧
      slice data (n + efkLen) (n + efkLen + kivLen) =
        (rest.drop efkLen).take kivLen ∧
      slice data (n + efkLen + kivLen) (n + efkLen + kivLen + divLen) =
        (rest.drop (efkLen + kivLen)).take divLen ∧
      slice data (n + efkLen + kivLen + divLen) data.length =
        rest.drop (efkLen + kivLen + divLen) := by
  have hbehind : forall i m, slice data (n + i) (n + i + m) =
      (rest.drop i).take m := by
    intro i m
    rw [slice, drop_take, ← drop_drop, hdrop,
      Nat.add_sub_cancel_left]
  refine ⟨hbehind 0 efkLen, hbehind efkLen kivLen, ?_, ?_⟩
  · rw [Nat.add_assoc n]
    exact hbehind (efkLen + kivLen) divLen
  · rw [slice, take_length, ← hdrop, drop_drop, Nat.add_assoc,
      Nat.add_assoc, ← Nat.add_assoc efkLen]

theorem Rust.parseEnvelope_short
    (h : data.length < headerSize) :
    Rust.parseEnvelope data =
      .error (.internal "envelope too short".toList) := by
  rw [Rust.parseEnvelope, if_pos h]
  rfl

theorem Rust.parseEnvelope_header
    (b₀ b₁ b₂ b₃ b₄ b₅ b₆ b₇ b₈ b₉ b₁₀ b₁₁ : UInt8) (rest : List UInt8) :
    Rust.parseEnvelope (b₀ :: b₁ :: b₂ :: b₃ :: b₄ :: b₅ :: b₆ :: b₇ :: b₈ ::
      b₉ :: b₁₀ :: b₁₁ :: rest) =
      if [b₀, b₁, b₂, b₃] ≠ magic then
        .error (.internal "invalid envelope magic".toList)
      else if b₄ ≠ version then
        .error (.internal
          ("unsupported envelope version: ".toList ++ decimal b₄.toNat))
      else if rest.length < ofBigEndian [b₆, b₇] + ofBigEndian [b₈, b₉] +
          ofBigEndian [b₁₀, b₁₁] then
        .error (.internal "incomplete envelope".toList)
      else
        .ok (Envelope.ofBody b₅ (ofBigEndian [b₆, b₇])
          (ofBigEndian [b₈, b₉]) (ofBigEndian [b₁₀, b₁₁]) rest) := by
  generalize hdata : b₀ :: b₁ :: b₂ :: b₃ :: b₄ :: b₅ :: b₆ :: b₇ :: b₈ ::
    b₉ :: b₁₀ :: b₁₁ :: rest = data
  have hlen : data.length = headerSize + rest.length := by
    rw [← hdata]
    simp only [length_cons, headerSize]
    omega
  have hdrop : data.drop headerSize = rest := by
    rw [← hdata]
    rfl
  have hmagic : Rust.slice data 0 4 = .ok [b₀, b₁, b₂, b₃] := by
    rw [← hdata]
    rfl
  have hindex : forall i : Nat, forall b : UInt8, data[i]? = some b ->
      Rust.index data i = .ok b := by
    intro i b h
    rw [Rust.index, h]
  have h4 := hindex 4 b₄ (by rw [← hdata]; rfl)
  have h5 := hindex 5 b₅ (by rw [← hdata]; rfl)
  have h6 := hindex 6 b₆ (by rw [← hdata]; rfl)
  have h7 := hindex 7 b₇ (by rw [← hdata]; rfl)
  have h8 := hindex 8 b₈ (by rw [← hdata]; rfl)
  have h9 := hindex 9 b₉ (by rw [← hdata]; rfl)
  have h10 := hindex 10 b₁₀ (by rw [← hdata]; rfl)
  have h11 := hindex 11 b₁₁ (by rw [← hdata]; rfl)
  have hnotShort : ¬ data.length < headerSize := by omega
  unfold Rust.parseEnvelope
  rw [if_neg hnotShort, hmagic, h4, h5, h6, h7, h8, h9, h10, h11]
  by_cases hm : [b₀, b₁, b₂, b₃] ≠ magic
  · simp only [bind, Except.bind, if_pos hm]
    rfl
  by_cases hv : b₄ ≠ version
  · simp only [bind, Except.bind, if_neg hm, if_pos hv]
    rfl
  simp only [bind, Except.bind, if_neg hm, if_neg hv]
  generalize ofBigEndian [b₆, b₇] = efkLen
  generalize ofBigEndian [b₈, b₉] = kivLen
  generalize ofBigEndian [b₁₀, b₁₁] = divLen
  by_cases hfull : rest.length < efkLen + kivLen + divLen
  · have hincomplete : data.length < headerSize + efkLen + kivLen + divLen := by
      omega
    rw [if_pos hfull, if_pos hincomplete]
    rfl
  · have hcomplete : ¬ data.length < headerSize + efkLen + kivLen + divLen := by
      omega
    rcases slices_behind hdrop efkLen kivLen divLen with
      ⟨hefk, hkiv, hdiv, hcontent⟩
    rw [if_neg hfull, if_neg hcomplete, Rust.slice_eq (by omega) (by omega),
      Rust.slice_eq (by omega) (by omega), Rust.slice_eq (by omega) (by omega),
      Rust.slice_eq (by omega) le_rfl, hefk, hkiv, hdiv, hcontent]
    rfl

theorem Python.parseEnvelope_short
    (h : data.length < headerSize) :
    parseEnvelope data =
      .error
        (.corruptedCiphertext "Envelope too short".toList) := by
  rw [parseEnvelope, if_pos h]
  rfl

theorem Python.parseEnvelope_header
    (b₀ b₁ b₂ b₃ b₄ b₅ b₆ b₇ b₈ b₉ b₁₀ b₁₁ : UInt8) (rest : List UInt8) :
    parseEnvelope (b₀ :: b₁ :: b₂ :: b₃ :: b₄ :: b₅ :: b₆ :: b₇ ::
      b₈ :: b₉ :: b₁₀ :: b₁₁ :: rest) =
      if [b₀, b₁, b₂, b₃] ≠ magic then
        .error (.invalidMagic [b₀, b₁, b₂, b₃])
      else if b₄ ≠ version then
        .error (.corruptedCiphertext
          ("Unsupported version: ".toList ++ decimal b₄.toNat))
      else if rest.length < ofBigEndian [b₆, b₇] + ofBigEndian [b₈, b₉] +
          ofBigEndian [b₁₀, b₁₁] then
        .error (.corruptedCiphertext "Incomplete envelope".toList)
      else
        .ok (Envelope.ofBody (b₅.toNat : Int) (ofBigEndian [b₆, b₇])
          (ofBigEndian [b₈, b₉]) (ofBigEndian [b₁₀, b₁₁]) rest) := by
  generalize hdata : b₀ :: b₁ :: b₂ :: b₃ :: b₄ :: b₅ :: b₆ :: b₇ :: b₈ ::
    b₉ :: b₁₀ :: b₁₁ :: rest = data
  have hlen : data.length = headerSize + rest.length := by
    rw [← hdata]
    simp only [length_cons, headerSize]
    omega
  have hdrop : data.drop headerSize = rest := by
    rw [← hdata]
    rfl
  have hheader : unpackHeader (slice data 0 headerSize) =
      .ok {
        magic := [b₀, b₁, b₂, b₃]
        version := ofBigEndian [b₄]
        providerType := ofBigEndian [b₅]
        efkLen := ofBigEndian [b₆, b₇]
        kivLen := ofBigEndian [b₈, b₉]
        divLen := ofBigEndian [b₁₀, b₁₁] } := by
    rw [← hdata]
    rfl
  have hnotShort : ¬ data.length < headerSize := by omega
  unfold parseEnvelope
  rw [if_neg hnotShort, hheader]
  by_cases hm : [b₀, b₁, b₂, b₃] ≠ magic
  · simp only [bind, Except.bind, if_pos hm]
    rfl
  by_cases hv : b₄ ≠ version
  · have hversion : ofBigEndian [b₄] ≠ version.toNat := by
      rw [ofBigEndian_one]
      exact fun h => hv (UInt8.toNat_inj.mp h)
    simp only [bind, Except.bind, if_neg hm, if_pos hv, if_pos hversion]
    rw [ofBigEndian_one]
    rfl
  · have hversion : ¬ ofBigEndian [b₄] ≠ version.toNat := by
      rw [ofBigEndian_one]
      exact fun h => hv fun heq => h (congrArg UInt8.toNat heq)
    simp only [bind, Except.bind, if_neg hm, if_neg hv, if_neg hversion]
    rw [ofBigEndian_one]
    generalize ofBigEndian [b₆, b₇] = efkLen
    generalize ofBigEndian [b₈, b₉] = kivLen
    generalize ofBigEndian [b₁₀, b₁₁] = divLen
    by_cases hfull : rest.length < efkLen + kivLen + divLen
    · have hincomplete : data.length < headerSize + efkLen + kivLen + divLen := by
        omega
      rw [if_pos hfull, if_pos hincomplete]
      rfl
    · have hcomplete : ¬ data.length < headerSize + efkLen + kivLen + divLen := by
        omega
      rcases slices_behind hdrop efkLen kivLen divLen with
        ⟨hefk, hkiv, hdiv, hcontent⟩
      rw [if_neg hfull, if_neg hcomplete, hefk, hkiv, hdiv, hcontent]
      rfl

/-!
# The layout of an envelope
-/

structure Encodes (parts : Envelope UInt8) (data : List UInt8) : Prop where
  fits : parts.Fits
  layout : data = magic ++ [version] ++ [parts.providerType] ++
    bigEndian 2 parts.encryptedFileKey.length ++
      bigEndian 2 parts.keyIv.length ++ bigEndian 2 parts.dataIv.length ++
        parts.body

theorem ofBigEndian_length {part : List UInt8} (h : part.length < 2 ^ 16) :
    ofBigEndian
      [ofNat (part.length / 256), ofNat part.length] =
        part.length := by
  have hlt : part.length < 256 ^ 2 := h
  rw [← bigEndian_two, ofBigEndian_bigEndian, Nat.mod_eq_of_lt hlt]

variable {parts : Envelope UInt8}

theorem Encodes.eq_header
    (h : Encodes parts data) :
    data = 0x4F :: 0x56 :: 0x45 :: 0x31 :: version :: parts.providerType ::
      ofNat (parts.encryptedFileKey.length / 256) ::
      ofNat parts.encryptedFileKey.length ::
      ofNat (parts.keyIv.length / 256) ::
      ofNat parts.keyIv.length ::
      ofNat (parts.dataIv.length / 256) ::
      ofNat parts.dataIv.length :: parts.body :=
  h.layout

theorem Rust.parse_of_encodes
    (h : Encodes parts data) : Rust.parseEnvelope data = .ok parts := by
  have hfull : ¬ parts.body.length < parts.encryptedFileKey.length +
      parts.keyIv.length + parts.dataIv.length := by
    rw [Envelope.length_body]
    omega
  have hmagic : ¬ [0x4F, 0x56, 0x45, 0x31] ≠ magic := not_not_intro rfl
  rw [h.eq_header, Rust.parseEnvelope_header, ofBigEndian_length h.fits.1,
    ofBigEndian_length h.fits.2.1, ofBigEndian_length h.fits.2.2,
    if_neg hmagic, if_neg (not_not_intro rfl), if_neg hfull,
    Envelope.ofBody_body]

theorem Python.parse_of_encodes
    (h : Encodes parts data) :
    parseEnvelope data = Except.ok parts.toPython := by
  have hfull : ¬ parts.body.length < parts.encryptedFileKey.length +
      parts.keyIv.length + parts.dataIv.length := by
    rw [Envelope.length_body]
    omega
  have hmagic : ¬ [0x4F, 0x56, 0x45, 0x31] ≠ magic := not_not_intro rfl
  rw [h.eq_header, parseEnvelope_header, ofBigEndian_length h.fits.1,
    ofBigEndian_length h.fits.2.1, ofBigEndian_length h.fits.2.2,
    if_neg hmagic, if_neg (not_not_intro rfl), if_neg hfull]
  exact congrArg Except.ok (Envelope.ofBody_body parts.toPython)

/-- What a parser accepts is an envelope. -/
theorem Rust.encodes_of_parse
    (h : Rust.parseEnvelope data = .ok parts) : Encodes parts data := by
  have hlong : headerSize ≤ data.length := by
    by_contra hshort
    rw [Rust.parseEnvelope_short (Nat.lt_of_not_le hshort)] at h
    cases h
  rcases exists_header hlong with
    ⟨b₀, b₁, b₂, b₃, b₄, b₅, b₆, b₇, b₈, b₉, b₁₀, b₁₁, rest, rfl⟩
  rw [Rust.parseEnvelope_header] at h
  split at h
  · cases h
  rename_i hm
  split at h
  · cases h
  rename_i hv
  split at h
  · cases h
  rename_i hfull
  cases h
  have hefk := bigEndian_ofBigEndian [b₆, b₇]
  have hkiv := bigEndian_ofBigEndian [b₈, b₉]
  have hdiv := bigEndian_ofBigEndian [b₁₀, b₁₁]
  have hefkLt := ofBigEndian_lt [b₆, b₇]
  have hkivLt := ofBigEndian_lt [b₈, b₉]
  have hdivLt := ofBigEndian_lt [b₁₀, b₁₁]
  simp only [length_cons, length_nil] at hefk hkiv hdiv
  simp only [length_cons, length_nil] at hefkLt hkivLt hdivLt
  generalize ofBigEndian [b₆, b₇] = efkLen at *
  generalize ofBigEndian [b₈, b₉] = kivLen at *
  generalize ofBigEndian [b₁₀, b₁₁] = divLen at *
  have hlenEfk : (rest.take efkLen).length = efkLen := by
    rw [length_take]
    omega
  have hlenKiv : ((rest.drop efkLen).take kivLen).length = kivLen := by
    rw [length_take, length_drop]
    omega
  have hlenDiv : ((rest.drop (efkLen + kivLen)).take divLen).length = divLen := by
    rw [length_take, length_drop]
    omega
  constructor
  · rw [Envelope.Fits, Envelope.ofBody, hlenEfk, hlenKiv, hlenDiv]
    exact ⟨hefkLt, hkivLt, hdivLt⟩
  · rw [Envelope.body_ofBody, Envelope.ofBody, hlenEfk, hlenKiv,
      hlenDiv, hefk, hkiv, hdiv, ← not_not.mp hm, not_not.mp hv]
    rfl

theorem Encodes.build
    (h : Encodes parts data) : Rust.build parts = data := by
  rw [h.layout, Rust.build, Rust.buildEnvelope, Nat.mod_eq_of_lt h.fits.1,
    Nat.mod_eq_of_lt h.fits.2.1, Nat.mod_eq_of_lt h.fits.2.2, Envelope.body]
  simp only [append_assoc]

theorem Rust.encodes_build (h : parts.Fits) :
    Encodes parts (Rust.build parts) := by
  have hencodes : Encodes parts _ := ⟨h, rfl⟩
  rw [hencodes.build]
  exact hencodes

theorem Python.pack_ok_iff {width : Nat} {n : Int} {bytes : List UInt8} :
    pack width n = .ok bytes <->
      exists m : Nat, n = m ∧ m < 256 ^ width ∧ bytes = bigEndian width m := by
  unfold pack
  constructor
  · intro h
    split at h
    · rename_i hn
      cases h
      refine ⟨n.toNat, (Int.toNat_of_nonneg hn.1).symm, ?_, rfl⟩
      have hlt := hn.2
      rw [← Int.toNat_of_nonneg hn.1] at hlt
      exact_mod_cast hlt
    · cases h
  · rintro ⟨m, rfl, hm, rfl⟩
    rw [if_pos ⟨Int.natCast_nonneg m, by exact_mod_cast hm⟩, Int.toNat_natCast]

theorem Python.packHeader_ok_iff {providerType : Int}
    {efkLen kivLen divLen : Nat} {bytes : List UInt8} :
    packHeader providerType efkLen kivLen divLen = .ok bytes <->
      exists p : UInt8, providerType = (p.toNat : Int) ∧ efkLen < 2 ^ 16 ∧
        kivLen < 2 ^ 16 ∧ divLen < 2 ^ 16 ∧
          bytes = magic ++ [version] ++ [p] ++ bigEndian 2 efkLen ++
            bigEndian 2 kivLen ++ bigEndian 2 divLen := by
  have hversion : pack 1 (version.toNat : Int) = .ok [version] := by
    decide
  have hbyte : forall p : UInt8, pack 1 (p.toNat : Int) = .ok [p] := by
    intro p
    refine pack_ok_iff.mpr ⟨p.toNat, rfl, p.toNat_lt, ?_⟩
    have h := bigEndian_ofBigEndian [p]
    rw [ofBigEndian_one] at h
    exact h.symm
  have hlength : forall n : Nat, n < 2 ^ 16 ->
      pack 2 (n : Int) = .ok (bigEndian 2 n) :=
    fun n hn => pack_ok_iff.mpr ⟨n, rfl, hn, rfl⟩
  have hlt : forall (n : Nat) (packed : List UInt8),
      pack 2 (n : Int) = .ok packed ->
        n < 2 ^ 16 ∧ packed = bigEndian 2 n := by
    intro n packed h
    rcases pack_ok_iff.mp h with ⟨m, hm, hlt, hpacked⟩
    rw [Int.ofNat_inj.mp hm]
    exact ⟨hlt, hpacked⟩
  unfold packHeader
  rw [hversion]
  constructor
  · intro h
    cases hp : pack 1 providerType with
    | error e =>
      rw [hp] at h
      cases h
    | ok providerByte =>
      rcases pack_ok_iff.mp hp with ⟨m, rfl, hm, rfl⟩
      cases he : pack 2 (efkLen : Int) with
      | error e =>
        rw [hp, he] at h
        cases h
      | ok efkBytes =>
        cases hk : pack 2 (kivLen : Int) with
        | error e =>
          rw [hp, he, hk] at h
          cases h
        | ok kivBytes =>
          cases hd : pack 2 (divLen : Int) with
          | error e =>
            rw [hp, he, hk, hd] at h
            cases h
          | ok divBytes =>
            rw [hp, he, hk, hd] at h
            cases h
            rcases hlt efkLen efkBytes he with ⟨hefk, rfl⟩
            rcases hlt kivLen kivBytes hk with ⟨hkiv, rfl⟩
            rcases hlt divLen divBytes hd with ⟨hdiv, rfl⟩
            have hback : (ofNat m).toNat = m := by
              have hbyteLt : m < 2 ^ 8 := hm
              rw [toNat_ofNat', Nat.mod_eq_of_lt hbyteLt]
            exact ⟨ofNat m, by rw [hback], hefk, hkiv, hdiv, rfl⟩
  · rintro ⟨p, rfl, hefk, hkiv, hdiv, rfl⟩
    rw [hbyte, hlength _ hefk, hlength _ hkiv, hlength _ hdiv]
    rfl

theorem Python.build_ok_iff {parts : Envelope Int} :
    build parts = .ok data <->
      exists p : Envelope UInt8, parts = p.toPython ∧ Encodes p data := by
  unfold build buildEnvelope
  constructor
  · intro h
    cases hheader : packHeader parts.providerType
        parts.encryptedFileKey.length parts.keyIv.length parts.dataIv.length with
    | error e =>
      rw [hheader] at h
      cases h
    | ok header =>
      rw [hheader] at h
      cases h
      rcases packHeader_ok_iff.mp hheader with
        ⟨p, hp, hefk, hkiv, hdiv, rfl⟩
      refine ⟨{ parts with providerType := p }, ?_, ⟨hefk, hkiv, hdiv⟩, ?_⟩
      · cases parts
        cases hp
        rfl
      · simp only [Envelope.body, append_assoc]
  · rintro ⟨p, rfl, hencodes⟩
    have hheader := packHeader_ok_iff.mpr
      ⟨p.providerType, rfl, hencodes.fits.1, hencodes.fits.2.1,
        hencodes.fits.2.2, rfl⟩
    change (packHeader (p.providerType.toNat : Int)
      p.encryptedFileKey.length p.keyIv.length p.dataIv.length >>= _) = _
    rw [hheader, hencodes.layout]
    simp only [Envelope.body, ← append_assoc]
    rfl

/-!
# What the codecs promise
-/

/-- Both parsers reject, or both return the same parts. -/
def ParsersAgree :
    Except Rust.Failure (Envelope UInt8) ->
      Except Python.Failure (Envelope Int) -> Prop
  | .ok parts, .ok found => found = parts.toPython
  | .error _, .error _ => True
  | _, _ => False

theorem parsers_agree (data : List UInt8) :
    ParsersAgree (Rust.parseEnvelope data) (parseEnvelope data) := by
  by_cases hlong : headerSize ≤ data.length
  · rcases exists_header hlong with
      ⟨b₀, b₁, b₂, b₃, b₄, b₅, b₆, b₇, b₈, b₉, b₁₀, b₁₁, rest, rfl⟩
    rw [Rust.parseEnvelope_header, parseEnvelope_header]
    split
    · trivial
    · split
      · trivial
      · split
        · trivial
        · rfl
  · rw [Rust.parseEnvelope_short (Nat.lt_of_not_le hlong),
      parseEnvelope_short (Nat.lt_of_not_le hlong)]
    trivial

theorem Rust.parseEnvelope_inBounds (data : List UInt8) :
    Rust.parseEnvelope data ≠ .error .outOfBounds := by
  by_cases hlong : headerSize ≤ data.length
  · rcases exists_header hlong with
      ⟨b₀, b₁, b₂, b₃, b₄, b₅, b₆, b₇, b₈, b₉, b₁₀, b₁₁, rest, rfl⟩
    rw [Rust.parseEnvelope_header]
    split
    · exact fun h => by cases h
    · split
      · exact fun h => by cases h
      · split
        · exact fun h => by cases h
        · exact fun h => by cases h
  · rw [Rust.parseEnvelope_short (Nat.lt_of_not_le hlong)]
    exact fun h => by cases h

/-- The codecs are exact and the same in both languages: for the bytes `data`,
for parts given to the Rust builder and for parts given to the Python
builder. -/
structure CodecExact (data : List UInt8) (parts : Envelope UInt8)
    (pythonParts : Envelope Int) : Prop where
  agree : ParsersAgree (Rust.parseEnvelope data) (Python.parseEnvelope data)
  inBounds : Rust.parseEnvelope data ≠ .error Rust.Failure.outOfBounds
  rebuilt : forall found : Envelope UInt8,
    Rust.parseEnvelope data = .ok found ->
      Rust.build found = data ∧ Python.build found.toPython = .ok data
  rustBuilt :
    Rust.parseEnvelope (Rust.build parts) = .ok parts ∧
      Python.parseEnvelope (Rust.build parts) = .ok parts.toPython
  pythonBuilt : forall envelope : List UInt8,
    Python.build pythonParts = .ok envelope ->
      Python.parseEnvelope envelope = .ok pythonParts ∧
        exists found : Envelope UInt8, pythonParts = found.toPython ∧
          Rust.parseEnvelope envelope = .ok found

/-- The codecs are exact when the Rust builder is given lengths that fit, and
only then. -/
theorem codec_exact_iff (data : List UInt8) (parts : Envelope UInt8)
    (pythonParts : Envelope Int) :
    CodecExact data parts pythonParts <-> parts.Fits := by
  constructor
  · intro h
    exact (Rust.encodes_of_parse h.rustBuilt.1).fits
  intro hfits
  have hencodes := Rust.encodes_build hfits
  constructor
  · exact parsers_agree data
  · exact Rust.parseEnvelope_inBounds data
  · intro found hfound
    have hdata := Rust.encodes_of_parse hfound
    exact ⟨hdata.build, Python.build_ok_iff.mpr ⟨found, rfl, hdata⟩⟩
  · exact ⟨Rust.parse_of_encodes hencodes, Python.parse_of_encodes hencodes⟩
  · intro envelope henvelope
    rcases Python.build_ok_iff.mp henvelope with ⟨found, rfl, hfound⟩
    exact ⟨Python.parse_of_encodes hfound, found, rfl,
      Rust.parse_of_encodes hfound⟩

namespace Sample

/-- A key IV of 65536 bytes. -/
def oversized : Envelope UInt8 :=
  { providerType := 2
    encryptedFileKey := [7]
    keyIv := List.replicate (2 ^ 16) 0
    dataIv := []
    encryptedContent := [] }

/-- The same bytes, taken for content. -/
def shifted : Envelope UInt8 :=
  { oversized with
    keyIv := []
    encryptedContent := List.replicate (2 ^ 16) 0 }

end Sample

theorem oversized_part_shifts :
    Rust.parseEnvelope (Rust.build Sample.oversized) =
        .ok Sample.shifted ∧
      Sample.shifted ≠ Sample.oversized := by
  have hfits : Sample.shifted.Fits := by decide
  have hsame : Rust.build Sample.oversized = Rust.build Sample.shifted := by
    simp only [Rust.build, Rust.buildEnvelope, Sample.shifted,
      Sample.oversized, List.length_replicate, Nat.mod_self, List.length_nil,
      Nat.zero_mod, List.append_assoc, List.append_nil]
  constructor
  · rw [hsame]
    exact Rust.parse_of_encodes (Rust.encodes_build hfits)
  · intro h
    have hkiv := congrArg (fun parts => parts.keyIv.length) h
    simp only [Sample.shifted, Sample.oversized, List.length_replicate,
      List.length_nil] at hkiv
    exact absurd hkiv (by decide)

end Crypto
end OpenViking
