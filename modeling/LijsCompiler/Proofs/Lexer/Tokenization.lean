import LijsCompiler.Proofs.Lexer.Spelling

/-!
# The one reading of a source

`IsTokenization` says, in bytes of the source, what it is for a list of tokens to be a reading of
it: the spans follow one another, only spaces stand between them, and each span holds the spelling
of its token, which what comes next does not continue.  Every source shorter than `2 ^ 32` bytes has
at most one reading, and `tokenize` finds it.
-/

namespace LijsCompiler

namespace Text

def charAt? (source : String) (offset : Nat) : Option Char :=
  source.toByteArray.utf8DecodeChar? offset

/-! ## What is left of the bytes of a text -/

/-- From byte `position` on, `bytes` is the text `cs`. -/
def Remains (bytes : ByteArray) (position : Nat) (cs : List Char) : Prop :=
  position ≤ bytes.size ∧ bytes.extract position bytes.size = cs.utf8Encode

theorem size_utf8Encode (cs : List Char) : cs.utf8Encode.size = byteLength cs := by
  induction cs with
  | nil => rfl
  | cons c cs ih =>
      rw [List.utf8Encode_cons, ByteArray.size_append, ih, List.utf8Encode_singleton]
      simp

theorem remains_toList (source : String) : Remains source.toByteArray 0 source.toList := by
  refine ⟨Nat.zero_le _, ?_⟩
  rw [ByteArray.extract_zero_size, String.utf8Encode_toList]

variable {bytes : ByteArray} {position : Nat}

theorem Remains.size_eq {cs : List Char} (h : Remains bytes position cs) :
    bytes.size = position + byteLength cs := by
  have hsize := congrArg ByteArray.size h.2
  rw [ByteArray.size_extract, size_utf8Encode] at hsize
  have hle := h.1
  omega

/-- A part at the front of what is left covers its own bytes. -/
theorem Remains.extract_eq {run rest : List Char} (h : Remains bytes position (run ++ rest)) :
    bytes.extract position (position + byteLength run) = run.utf8Encode ∧
      Remains bytes (position + byteLength run) rest := by
  have hsize := h.size_eq
  rw [byteLength_append] at hsize
  have hsplit := h.2
  rw [ByteArray.extract_eq_extract_append_extract (position + byteLength run) (by omega) (by omega),
    List.utf8Encode_append] at hsplit
  have hrun : (bytes.extract position (position + byteLength run)).size = run.utf8Encode.size := by
    rw [ByteArray.size_extract, size_utf8Encode]
    omega
  obtain ⟨hleft, hright⟩ := (ByteArray.append_eq_append_iff_of_size_eq_left hrun).1 hsplit
  exact ⟨hleft, by omega, hright⟩

/-- Bytes that spell `run` at the front of what is left are the bytes of `run` there. -/
theorem Remains.exists_eq_append {cs run : List Char} {stop : Nat}
    (h : Remains bytes position cs) (hstart : position ≤ stop) (hstop : stop ≤ bytes.size)
    (hrun : bytes.extract position stop = run.utf8Encode) :
    ∃ rest, cs = run ++ rest ∧ stop = position + byteLength run := by
  have hsplit := h.2
  rw [ByteArray.extract_eq_extract_append_extract stop hstart hstop, hrun] at hsplit
  obtain ⟨rest, rfl⟩ := List.isPrefix_of_utf8Encode_append_eq_utf8Encode _ hsplit
  have hsize := congrArg ByteArray.size hrun
  rw [ByteArray.size_extract, size_utf8Encode] at hsize
  exact ⟨rest, rfl, by omega⟩

theorem Remains.utf8DecodeChar? {cs : List Char} (h : Remains bytes position cs) :
    bytes.utf8DecodeChar? position = cs.head? := by
  rw [ByteArray.utf8DecodeChar?_eq_utf8DecodeChar?_extract, h.2]
  cases cs with
  | nil => rfl
  | cons c cs => exact List.utf8DecodeChar?_utf8Encode_cons

theorem extract_eq_space_iff (h : position < bytes.size) :
    bytes.extract position (position + 1) = [' '].utf8Encode ↔ bytes[position] = ' '.toUInt8 := by
  rw [ByteArray.extract_add_one h]
  have hspace : [' '].utf8Encode = [' '.toUInt8].toByteArray := by rfl
  rw [hspace, List.toByteArray_inj]
  simp

end Text

namespace Token

/-! ## Readings of a text in characters -/

inductive Lexes : Nat → List Char → List Token → Prop where
  | nil {position : Nat} : Lexes position [] []
  | space {position : Nat} {cs : List Char} {ts : List Token}
      (hts : Lexes (position + 1) cs ts) : Lexes position (' ' :: cs) ts
  | token {position : Nat} {lexeme : Lexeme} {ts : List Token} (hcut : lexeme.IsCut)
      (hts : Lexes (position + Text.byteLength lexeme.text) lexeme.rest ts) :
      Lexes position (lexeme.text ++ lexeme.rest)
        (⟨lexeme.kind, .ofPosition position (Text.byteLength lexeme.text)⟩ :: ts)

theorem exists_spelling_eq_cons {kind : TokenKind} {text : List Char} (h : Spells kind text) :
    ∃ c rest, text = c :: rest ∧ c ≠ ' ' := by
  cases h with
  | mark m => exact ⟨m.char, [], rfl, by cases m <;> decide⟩
  | keyword k =>
      obtain ⟨c, rest, hword, hc⟩ := exists_word_eq_cons k
      exact ⟨c, rest ++ [' '], by rw [hword]; rfl, by rintro rfl; simp at hc⟩
  | identifier hname =>
      obtain ⟨c, rest, hcs, hc, -⟩ := hname
      exact ⟨c, rest, hcs, by rintro rfl; simp at hc⟩
  | integer hnumber | float hnumber =>
      obtain ⟨c, rest, hcs, hc, -⟩ := hnumber
      exact ⟨c, rest, hcs, by rintro rfl; simp at hc⟩
  | _ => exact ⟨_, _, rfl, by decide⟩

theorem lexes_of_tokenizeFrom {position : Nat} {cs : List Char} {ts : List Token}
    (h : tokenizeFrom position cs = .ok ts) : Lexes position cs ts := by
  fun_induction tokenizeFrom position cs generalizing ts with
  | case1 =>
      cases h
      exact .nil
  | case2 position cs ih => exact .space (ih h)
  | case3 => cases h
  | case4 position c cs hc lexeme hscan length =>
      rename_i ih
      obtain ⟨hcut, hcs⟩ := scan_eq_ok_iff.1 hscan
      cases htail : tokenizeFrom (position + length) lexeme.rest with
      | error e =>
          rw [htail] at h
          cases h
      | ok tail =>
          rw [htail] at h
          cases h
          rw [← hcs]
          exact .token hcut (ih htail)

theorem tokenizeFrom_of_scan {position : Nat} {c : Char} {cs : List Char} {lexeme : Lexeme}
    (hc : c ≠ ' ') (h : scan position c cs = .ok lexeme) :
    tokenizeFrom position (c :: cs) =
      (tokenizeFrom (position + Text.byteLength lexeme.text) lexeme.rest).map
        (⟨lexeme.kind, .ofPosition position (Text.byteLength lexeme.text)⟩ :: ·) := by
  rw [tokenizeFrom, if_neg hc]
  split
  · rename_i e he
    rw [h] at he
    cases he
  · rename_i found hfound
    obtain rfl : lexeme = found := by simpa [h] using hfound
    rfl

theorem tokenizeFrom_of_isCut (position : Nat) {lexeme : Lexeme} (h : lexeme.IsCut) :
    tokenizeFrom position (lexeme.text ++ lexeme.rest) =
      (tokenizeFrom (position + Text.byteLength lexeme.text) lexeme.rest).map
        (⟨lexeme.kind, .ofPosition position (Text.byteLength lexeme.text)⟩ :: ·) := by
  obtain ⟨c, tail, htext, hc⟩ := exists_spelling_eq_cons h.1
  have hcs : lexeme.text ++ lexeme.rest = c :: (tail ++ lexeme.rest) := by rw [htext]; rfl
  rw [hcs]
  exact tokenizeFrom_of_scan hc (scan_eq_ok_iff.2 ⟨h, hcs⟩)

theorem tokenizeFrom_of_lexes {position : Nat} {cs : List Char} {ts : List Token}
    (h : Lexes position cs ts) : tokenizeFrom position cs = .ok ts := by
  induction h with
  | nil => rw [tokenizeFrom]
  | space _ ih => rw [tokenizeFrom, if_pos rfl, ih]
  | token hcut _ ih =>
      rw [tokenizeFrom_of_isCut _ hcut, ih]
      rfl

theorem tokenizeFrom_eq_ok_iff {position : Nat} {cs : List Char} {ts : List Token} :
    tokenizeFrom position cs = .ok ts ↔ Lexes position cs ts :=
  ⟨lexes_of_tokenizeFrom, tokenizeFrom_of_lexes⟩

/-! ## Readings of a source in bytes -/

/-- The span of a token holds its spelling, and what comes next does not continue it. -/
structure Fits (bytes : ByteArray) (t : Token) : Prop where
  nonempty : t.span.start < t.span.stop
  inside : t.span.stop.toNat ≤ bytes.size
  spelled : ∃ text, Spells t.kind text ∧
    bytes.extract t.span.start.toNat t.span.stop.toNat = text.utf8Encode
  ended : EndsBefore t.kind (bytes.utf8DecodeChar? t.span.stop.toNat)

structure IsReadingFrom (bytes : ByteArray) (position : Nat) (ts : List Token) : Prop where
  fits : ∀ t ∈ ts, Fits bytes t ∧ position ≤ t.span.start.toNat
  ordered : ts.Pairwise fun a b => a.span.stop ≤ b.span.start
  spaces : ∀ i (h : i < bytes.size), position ≤ i →
    (∀ t ∈ ts, ¬ (t.span.start.toNat ≤ i ∧ i < t.span.stop.toNat)) → bytes[i] = ' '.toUInt8

variable {bytes : ByteArray} {position : Nat} {ts : List Token}

theorem toNat_ofPosition {start length : Nat} (h : start + length < UInt32.size) :
    (Span.ofPosition start length).start.toNat = start ∧
      (Span.ofPosition start length).stop.toNat = start + length := by
  simp only [UInt32.size] at h
  simp only [Span.ofPosition, UInt32.toNat_ofNat']
  omega

theorem fits_of_isCut {lexeme : Lexeme} (hsize : bytes.size < UInt32.size)
    (hremains : Text.Remains bytes position (lexeme.text ++ lexeme.rest)) (hcut : lexeme.IsCut) :
    Fits bytes ⟨lexeme.kind, .ofPosition position (Text.byteLength lexeme.text)⟩ := by
  obtain ⟨hextract, hrest⟩ := hremains.extract_eq
  have hlt : position + Text.byteLength lexeme.text < UInt32.size :=
    Nat.lt_of_le_of_lt hrest.1 hsize
  obtain ⟨hstart, hstop⟩ := toNat_ofPosition hlt
  obtain ⟨c, tail, htext, -⟩ := exists_spelling_eq_cons hcut.1
  have hpos : 0 < Text.byteLength lexeme.text := by
    rw [htext, Text.byteLength_cons]
    have := c.utf8Size_pos
    omega
  constructor
  · rw [UInt32.lt_iff_toNat_lt, hstart, hstop]
    omega
  · rw [hstop]
    exact hrest.1
  · refine ⟨lexeme.text, hcut.1, ?_⟩
    rw [hstart, hstop]
    exact hextract
  · rw [hstop, hrest.utf8DecodeChar?]
    exact hcut.2

theorem isReadingFrom_of_lexes {cs : List Char} (hsize : bytes.size < UInt32.size)
    (h : Lexes position cs ts) (hremains : Text.Remains bytes position cs) :
    IsReadingFrom bytes position ts := by
  induction h with
  | @nil position =>
      refine ⟨by simp, by simp, ?_⟩
      intro i hi hle _
      have heq := hremains.size_eq
      rw [Text.byteLength_nil] at heq
      omega
  | @space position cs ts _ ih =>
      obtain ⟨hextract, hrest⟩ := @Text.Remains.extract_eq _ _ [' '] _ hremains
      have hone : Text.byteLength [' '] = 1 := rfl
      rw [hone] at hextract hrest
      have hread := ih hrest
      refine ⟨fun t ht => ⟨(hread.fits t ht).1, ?_⟩, hread.ordered, ?_⟩
      · have := (hread.fits t ht).2
        omega
      · intro i hi hle hfree
        rcases Nat.eq_or_lt_of_le hle with rfl | hlt
        · exact (Text.extract_eq_space_iff hi).1 hextract
        · exact hread.spaces i hi hlt hfree
  | @token position lexeme ts hcut _ ih =>
      obtain ⟨-, hrest⟩ := hremains.extract_eq
      have hread := ih hrest
      have hfits := fits_of_isCut hsize hremains hcut
      obtain ⟨hstart, hstop⟩ := toNat_ofPosition (Nat.lt_of_le_of_lt hrest.1 hsize)
      refine ⟨?_, ?_, ?_⟩
      · intro t ht
        rcases List.mem_cons.1 ht with rfl | ht
        · exact ⟨hfits, Nat.le_of_eq hstart.symm⟩
        · have := (hread.fits t ht).2
          exact ⟨(hread.fits t ht).1, by omega⟩
      · refine List.pairwise_cons.2 ⟨fun t ht => ?_, hread.ordered⟩
        rw [UInt32.le_iff_toNat_le, hstop]
        exact (hread.fits t ht).2
      · intro i hi hle hfree
        have hnot := hfree _ (List.mem_cons_self ..)
        rw [hstart, hstop] at hnot
        exact hread.spaces i hi (by omega) fun t ht => hfree t (List.mem_cons_of_mem _ ht)

/-- The first token of a reading that begins where the reading does is cut off the text. -/
theorem exists_lexeme_of_fits {cs : List Char} {t : Token}
    (hremains : Text.Remains bytes position cs) (hfits : Fits bytes t)
    (hstart : t.span.start.toNat = position) :
    ∃ lexeme : Lexeme, lexeme.IsCut ∧ cs = lexeme.text ++ lexeme.rest ∧
      t.span.stop.toNat = position + Text.byteLength lexeme.text ∧
      t = ⟨lexeme.kind, .ofPosition position (Text.byteLength lexeme.text)⟩ := by
  obtain ⟨text, hspells, hextract⟩ := hfits.spelled
  have hlt := UInt32.lt_iff_toNat_lt.1 hfits.nonempty
  rw [hstart] at hextract hlt
  obtain ⟨rest, rfl, hstop⟩ :=
    hremains.exists_eq_append (Nat.le_of_lt hlt) hfits.inside hextract
  have hended := hfits.ended
  rw [hstop, hremains.extract_eq.2.utf8DecodeChar?] at hended
  refine ⟨⟨t.kind, text, rest⟩, ⟨hspells, hended⟩, rfl, hstop, ?_⟩
  obtain ⟨kind, ⟨start, stop⟩⟩ := t
  dsimp only at hstart hstop
  simp only [Span.ofPosition, ← hstop]
  rw [← hstart, UInt32.ofNat_toNat, UInt32.ofNat_toNat]

/-- A byte in front of the first token of a reading is a space. -/
theorem exists_eq_space_cons {cs : List Char} (hremains : Text.Remains bytes position cs)
    (hread : IsReadingFrom bytes position ts) (hlt : position < bytes.size)
    (hfirst : ∀ t ∈ ts, position < t.span.start.toNat) :
    ∃ rest, cs = ' ' :: rest ∧ IsReadingFrom bytes (position + 1) ts := by
  have hspace := hread.spaces position hlt (Nat.le_refl _) fun t ht hcovers => by
    have := hfirst t ht
    omega
  obtain ⟨rest, rfl, -⟩ := hremains.exists_eq_append (Nat.le_succ position) hlt
    ((Text.extract_eq_space_iff hlt).2 hspace)
  refine ⟨rest, rfl, fun t ht => ⟨(hread.fits t ht).1, hfirst t ht⟩, hread.ordered, ?_⟩
  exact fun i hi hle => hread.spaces i hi (by omega)

theorem eq_nil_of_size_le {cs : List Char} (hremains : Text.Remains bytes position cs)
    (hread : IsReadingFrom bytes position ts) (hle : bytes.size ≤ position) :
    cs = [] ∧ ts = [] := by
  constructor
  · cases cs with
    | nil => rfl
    | cons c cs =>
        have hsize := hremains.size_eq
        rw [Text.byteLength_cons] at hsize
        have := c.utf8Size_pos
        omega
  · cases ts with
    | nil => rfl
    | cons t ts =>
        obtain ⟨hfits, hstart⟩ := hread.fits t (List.mem_cons_self ..)
        have hlt := UInt32.lt_iff_toNat_lt.1 hfits.nonempty
        have := hfits.inside
        omega

/-- After its first token a reading goes on where that token ends. -/
theorem IsReadingFrom.tail {t : Token} (hread : IsReadingFrom bytes position (t :: ts))
    (hstart : t.span.start.toNat = position) : IsReadingFrom bytes t.span.stop.toNat ts := by
  obtain ⟨hbefore, hordered⟩ := List.pairwise_cons.1 hread.ordered
  refine ⟨fun s hs => ⟨?_, ?_⟩, hordered, ?_⟩
  · exact (hread.fits s (List.mem_cons_of_mem _ hs)).1
  · exact UInt32.le_iff_toNat_le.1 (hbefore s hs)
  · intro i hi hle hfree
    have hlt := UInt32.lt_iff_toNat_lt.1 (hread.fits t (List.mem_cons_self ..)).1.nonempty
    refine hread.spaces i hi (by omega) fun s hs => ?_
    rcases List.mem_cons.1 hs with rfl | hs
    · omega
    · exact hfree s hs

theorem lexes_of_isReadingFrom {cs : List Char} (hremains : Text.Remains bytes position cs)
    (hread : IsReadingFrom bytes position ts) : Lexes position cs ts := by
  induction hlen : cs.length using Nat.strongRecOn generalizing position cs ts with
  | ind n ih =>
      subst hlen
      by_cases hfirst : ∀ t ∈ ts, position < t.span.start.toNat
      · by_cases hlt : position < bytes.size
        · obtain ⟨rest, rfl, hread⟩ := exists_eq_space_cons hremains hread hlt hfirst
          have hrest := (@Text.Remains.extract_eq _ _ [' '] _ hremains).2
          exact .space (ih _ (by simp) hrest hread rfl)
        · obtain ⟨rfl, rfl⟩ := eq_nil_of_size_le hremains hread (Nat.le_of_not_lt hlt)
          exact .nil
      · cases ts with
        | nil => simp at hfirst
        | cons t ts =>
            obtain ⟨hfits, hle⟩ := hread.fits t (List.mem_cons_self ..)
            have hstart : t.span.start.toNat = position := by
              -- every later token begins behind the first
              refine Decidable.byContradiction fun hne => hfirst fun s hs => ?_
              rcases List.mem_cons.1 hs with rfl | hs
              · omega
              · have hlt := UInt32.lt_iff_toNat_lt.1 hfits.nonempty
                have hbefore := (List.pairwise_cons.1 hread.ordered).1 s hs
                have hafter := UInt32.le_iff_toNat_le.1 hbefore
                omega
            obtain ⟨lexeme, hcut, rfl, hstop, ht⟩ := exists_lexeme_of_fits hremains hfits hstart
            obtain ⟨c, tail, htext, -⟩ := exists_spelling_eq_cons hcut.1
            have hshort : lexeme.rest.length < (lexeme.text ++ lexeme.rest).length := by
              rw [List.length_append, htext, List.length_cons]
              omega
            have htail := hread.tail hstart
            rw [hstop] at htail
            rw [ht]
            exact .token hcut (ih _ hshort hremains.extract_eq.2 htail rfl)

end Token

theorem eq_ok_of_toOption_eq_some {ε α : Type} {result : Except ε α} {a : α}
    (h : result.toOption = some a) : result = .ok a := by
  cases result with
  | error e => cases h
  | ok b =>
      cases h
      rfl

/-- A reading of a source: its tokens stand in order and leave out only spaces, each spells what it
covers, and each is the longest at its place. -/
structure IsTokenization (source : String) (ts : List Token) : Prop where
  nonempty : ∀ t ∈ ts, t.span.start < t.span.stop
  inside : ∀ t ∈ ts, t.span.stop.toNat ≤ source.utf8ByteSize
  ordered : ts.Pairwise fun a b => a.span.stop ≤ b.span.start
  spaces : ∀ i (h : i < source.toByteArray.size),
    (∀ t ∈ ts, ¬ (t.span.start.toNat ≤ i ∧ i < t.span.stop.toNat)) →
      source.toByteArray[i] = ' '.toUInt8
  spelled : ∀ t ∈ ts, ∃ text, Token.Spells t.kind text ∧
    source.toByteArray.extract t.span.start.toNat t.span.stop.toNat = text.utf8Encode
  ended : ∀ t ∈ ts, Token.EndsBefore t.kind (Text.charAt? source t.span.stop.toNat)

theorem isTokenization_iff {source : String} {ts : List Token} :
    IsTokenization source ts ↔ Token.IsReadingFrom source.toByteArray 0 ts := by
  constructor
  · intro h
    refine ⟨fun t ht => ⟨?_, Nat.zero_le _⟩, h.ordered, fun i hi _ => h.spaces i hi⟩
    exact ⟨h.nonempty t ht, h.inside t ht, h.spelled t ht, h.ended t ht⟩
  · intro h
    exact ⟨fun t ht => (h.fits t ht).1.nonempty, fun t ht => (h.fits t ht).1.inside, h.ordered,
      fun i hi => h.spaces i hi (Nat.zero_le i), fun t ht => (h.fits t ht).1.spelled,
      fun t ht => (h.fits t ht).1.ended⟩

/-- A source of fewer than `2 ^ 32` bytes is accepted exactly if it has a reading, and its tokens
are that reading. -/
theorem tokenize_eq_ok_iff {source : String} (hsize : source.utf8ByteSize < UInt32.size)
    (ts : List Token) : tokenize source = .ok ts ↔ IsTokenization source ts := by
  rw [tokenize, Token.tokenizeFrom_eq_ok_iff, isTokenization_iff]
  have hremains := Text.remains_toList source
  exact ⟨fun h => Token.isReadingFrom_of_lexes hsize h hremains,
    fun h => Token.lexes_of_isReadingFrom hremains h⟩

/-- A keyword, a name that begins like one, a name spelled like one, a number against a name and a
comment with a star in it. -/
theorem tokenize_eq_ok_iff_adjacent :
    "is is.x is\n1.5a/*é* */".utf8ByteSize < UInt32.size ∧
      IsTokenization "is is.x is\n1.5a/*é* */"
        [⟨.keyword (.check .equal), ⟨0, 3⟩⟩, ⟨.identifier "is.x", ⟨3, 7⟩⟩,
          ⟨.identifier "is", ⟨8, 10⟩⟩, ⟨.lineBreak, ⟨10, 11⟩⟩, ⟨.float "1.5", ⟨11, 14⟩⟩,
          ⟨.identifier "a", ⟨14, 15⟩⟩, ⟨.blockComment ["é* "], ⟨15, 23⟩⟩] :=
  ⟨by decide, (tokenize_eq_ok_iff (by decide) _).1 (eq_ok_of_toOption_eq_some (by decide +kernel))⟩

end LijsCompiler
