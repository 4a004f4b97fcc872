import AdvCppTP.KVReader.ForwardReader
import Mathlib.Logic.Relation

/-! What `ForwardReader` asks of the system while a file is read: the mappings of its windows and
the bytes that it copies from them. -/

namespace AdvCppTP.KVReader.MmapIO

inductive Access
  | mmap (length offset : Nat)
  | memcpy (window : WindowInfo) (size : Nat)
  deriving DecidableEq, Repr

/-- A mapping is not empty and begins with a page; a copy is from inside the window and the file. -/
def Access.Valid (content : Bytes) : Access → Prop
  | .mmap length offset => 0 < length ∧ pageSize ∣ offset
  | .memcpy window size =>
    ∃ addr, window.addr = some addr ∧ window.offset + size ≤ window.windowSize ∧
      addr + window.offset + size ≤ content.length

def request (r : ForwardReader) : Access := .mmap (newWindowSize r) r.mainOffset

/-- What a `get` asks for, as far as it gets. -/
def turnAccesses (size : Nat) (r : ForwardReader) : List Access :=
  (if r.windowInfo.offset ≥ r.windowInfo.windowSize then [request r] else []) ++
    match ensureWindow r with
    | .ok r₁ => [.memcpy r₁.windowInfo size]
    | .error _ => []

/-- The members of a reader before the constructor maps a window. -/
def unmapped (content : Bytes) (filepath : String) (filesize interval : Nat) : ForwardReader :=
  ⟨content, filepath, filesize, interval, 0, ⟨none, 0, 0⟩⟩

def constructAccesses (movedFrom : String → String) (files : String → Option Bytes)
    (filepath : String) (interval : Nat) : List Access :=
  match files (movedFrom filepath), files filepath with
  | some other, some content => [request (unmapped content filepath other.length interval)]
  | _, _ => []

/-- A turn of `while (!eof()) { get(x); }`. -/
def Turn (size : Nat) (r r' : ForwardReader) : Prop :=
  eof r = false ∧ ∃ data, get size r = .ok (data, r')

def Reached (size : Nat) (r r' : ForwardReader) : Prop := Relation.ReflTransGen (Turn size) r r'

/-! ## The accesses of a turn -/

theorem request_valid_iff (content : Bytes) (r : ForwardReader) :
    (request r).Valid content ↔ ∃ r', getNewWindow r = .ok r' := by
  unfold request Access.Valid getNewWindow
  constructor
  · rintro ⟨hpos, hpage⟩
    exact ⟨_, if_pos ⟨hpage, hpos⟩⟩
  · rintro ⟨r', h⟩
    split at h
    · rename_i hmaps
      exact ⟨hmaps.2, hmaps.1⟩
    · cases h

theorem copy_valid_iff {size : Nat} {r : ForwardReader} {start : Nat} (hr : r.Valid start)
    (hleft : r.windowInfo.offset < r.windowInfo.windowSize) (hsize : size ≤ r.interval) :
    (Access.memcpy r.windowInfo size).Valid r.content ↔
      r.mainOffset + size ≤ r.content.length := by
  have hrecord := add_le_of_dvd hr.whole.1 hr.whole.2 hleft
  rw [← hr.offset]
  constructor
  · rintro ⟨addr, haddr, -, hinside⟩
    obtain rfl := Option.some.inj (hr.addr.symm.trans haddr)
    exact hinside
  · intro hinside
    exact ⟨start, hr.addr, by omega, hinside⟩

/-- What a turn asks for is valid when there is a window then, and the record is in the file. -/
theorem turn_valid_iff {size : Nat} {r : ForwardReader} {start : Nat} (hr : r.Valid start)
    (hsize : size ≤ r.interval) :
    (∀ a ∈ turnAccesses size r, a.Valid r.content) ↔
      (∃ r₁, ensureWindow r = .ok r₁) ∧ r.mainOffset + size ≤ r.content.length := by
  have hcopy : ∀ r₁, ensureWindow r = .ok r₁ →
      ((Access.memcpy r₁.windowInfo size).Valid r.content ↔
        r.mainOffset + size ≤ r.content.length) := by
    intro r₁ hensure
    obtain ⟨⟨start₁, hvalid₁⟩, hleft, hsame⟩ := ensureWindow_ok hr hensure
    have hiff := copy_valid_iff hvalid₁ hleft (hsame.interval ▸ hsize)
    rwa [hsame.content, hsame.mainOffset] at hiff
  unfold turnAccesses
  by_cases hused : r.windowInfo.offset ≥ r.windowInfo.windowSize
  · have hensure : ensureWindow r = getNewWindow r := by rw [ensureWindow, if_pos hused]
    rw [if_pos hused, List.singleton_append, List.forall_mem_cons, request_valid_iff, ← hensure]
    constructor
    · rintro ⟨⟨r₁, hmaps⟩, hrest⟩
      rw [hmaps] at hrest
      exact ⟨⟨r₁, hmaps⟩, (hcopy r₁ hmaps).mp (hrest _ List.mem_cons_self)⟩
    · rintro ⟨⟨r₁, hmaps⟩, hinside⟩
      refine ⟨⟨r₁, hmaps⟩, ?_⟩
      rw [hmaps]
      exact List.forall_mem_singleton.mpr ((hcopy r₁ hmaps).mpr hinside)
  · have hensure : ensureWindow r = .ok r := by rw [ensureWindow, if_neg hused]
    rw [if_neg hused, List.nil_append, hensure]
    constructor
    · intro hall
      exact ⟨⟨r, rfl⟩, (hcopy r hensure).mp (hall _ List.mem_cons_self)⟩
    · rintro ⟨-, hinside⟩
      exact List.forall_mem_singleton.mpr ((hcopy r hensure).mpr hinside)

/-! ## Turn after turn -/

/-- `r` is what a reader `r₀` of a new file is when it has read `i` records; while it is not
behind the first window, that is still mapped. -/
structure AtRecord (r₀ : ForwardReader) (i : Nat) (r : ForwardReader) : Prop where
  content : r.content = r₀.content
  filesize : r.filesize = r₀.filesize
  interval : r.interval = r₀.interval
  mainOffset : r.mainOffset = i * r₀.interval
  window : ∃ start, r.Valid start ∧ (i * r₀.interval ≤ r₀.windowInfo.windowSize →
    start = 0 ∧ r.windowInfo.windowSize = r₀.windowInfo.windowSize)

theorem AtRecord.eof_eq_false {i : Nat} {r₀ r : ForwardReader} (h : AtRecord r₀ i r)
    (hmore : i * r₀.interval < r₀.filesize) : eof r = false := by
  rw [eof, h.mainOffset, h.filesize]
  exact decide_eq_false (Nat.not_le.mpr hmore)

theorem AtRecord.turn {size i : Nat} {r₀ r : ForwardReader} (h : AtRecord r₀ i r)
    (hpos : 0 < r₀.interval) (hsize : size ≤ r₀.interval) (hmore : i * r₀.interval < r₀.filesize)
    (hvalid : ∀ a ∈ turnAccesses size r, a.Valid r₀.content) :
    ∃ r', Turn size r r' ∧ AtRecord r₀ (i + 1) r' := by
  obtain ⟨start, hr, hfirst⟩ := h.window
  have hsize' : size ≤ r.interval := h.interval ▸ hsize
  rw [← h.content] at hvalid
  obtain ⟨⟨r₁, hensure⟩, hinside⟩ := (turn_valid_iff hr hsize').mp hvalid
  obtain ⟨⟨start₁, hvalid₁⟩, hleft, hsame⟩ := ensureWindow_ok hr hensure
  have hget := get_of_ensureWindow hr hensure hsize' hinside
  refine ⟨advance r₁, ⟨h.eof_eq_false hmore, _, hget⟩, hsame.content.trans h.content,
    hsame.filesize.trans h.filesize, hsame.interval.trans h.interval, ?_, ?_⟩
  · rw [advance, hsame.mainOffset, hsame.interval, h.mainOffset, h.interval, Nat.succ_mul]
  · -- inside of the first window nothing is mapped anew
    refine ⟨start₁, valid_advance hvalid₁ hleft, fun hinFirst => ?_⟩
    rw [Nat.succ_mul] at hinFirst
    obtain ⟨rfl, hwindow⟩ := hfirst (by omega)
    have hunused : ¬ r.windowInfo.offset ≥ r.windowInfo.windowSize := by
      have hoffset := hr.offset
      rw [h.mainOffset] at hoffset
      omega
    rw [ensureWindow, if_neg hunused] at hensure
    obtain rfl := Except.ok.inj hensure
    exact ⟨Option.some.inj (hvalid₁.addr.symm.trans hr.addr), hwindow⟩

section Valid

variable {size : Nat} {r₀ : ForwardReader} (hpos : 0 < r₀.interval) (hsize : size ≤ r₀.interval)
  (hstart : AtRecord r₀ 0 r₀)
  (hvalid : ∀ r, Reached size r₀ r → eof r = false → ∀ a ∈ turnAccesses size r, a.Valid r₀.content)

include hpos hsize hstart hvalid

/-- While everything it asks for is valid, a reader gets to every record up to the end. -/
theorem reaches_record (i : Nat) (hmore : ∀ j < i, j * r₀.interval < r₀.filesize) :
    ∃ r, Reached size r₀ r ∧ AtRecord r₀ i r := by
  -- by induction on the records read; what the last turn asked for was valid, so it returned
  induction i with
  | zero => exact ⟨r₀, .refl, hstart⟩
  | succ i ih =>
    obtain ⟨r, hreached, hat⟩ := ih fun j hj => hmore j (Nat.lt_succ_of_lt hj)
    have hlt := hmore i (Nat.lt_succ_self i)
    obtain ⟨r', hturn, hat'⟩ :=
      hat.turn hpos hsize hlt (hvalid r hreached (hat.eof_eq_false hlt))
    exact ⟨r', hreached.tail hturn, hat'⟩

/-- Behind the last whole record a window would be empty. -/
theorem records_of_valid : r₀.interval ∣ r₀.filesize := by
  by_contra hpart
  have hlast : r₀.filesize / r₀.interval * r₀.interval < r₀.filesize := by
    have hle := Nat.div_mul_le_self r₀.filesize r₀.interval
    have hne : r₀.filesize / r₀.interval * r₀.interval ≠ r₀.filesize :=
      fun heq => hpart (heq ▸ Nat.dvd_mul_left _ _)
    omega
  -- a reader one record further would be behind the end, where none is
  obtain ⟨r, -, hat⟩ := reaches_record hpos hsize hstart hvalid (r₀.filesize / r₀.interval + 1)
    fun j hj => (Nat.mul_le_mul_right _ (Nat.lt_succ_iff.mp hj)).trans_lt hlast
  obtain ⟨start, hr, -⟩ := hat.window
  have hinside := hr.mainOffset_le
  rw [hat.mainOffset, hat.filesize] at hinside
  have hbehind := Nat.lt_mul_div_succ r₀.filesize hpos
  rw [Nat.mul_comm] at hbehind
  omega

/-- The second window begins where the first one ends. -/
theorem page_of_valid (hmore : r₀.windowInfo.windowSize < r₀.filesize) :
    pageSize ∣ r₀.windowInfo.windowSize := by
  obtain ⟨_, hr₀, -⟩ := hstart.window
  obtain ⟨i, hi⟩ := hr₀.whole.2
  rw [Nat.mul_comm] at hi
  have hbefore : ∀ j < i, j * r₀.interval < r₀.filesize := fun j hj => by
    have hle := Nat.mul_le_mul_right r₀.interval hj.le
    omega
  obtain ⟨r, hreached, hat⟩ := reaches_record hpos hsize hstart hvalid i hbefore
  obtain ⟨start, hr, hfirst⟩ := hat.window
  obtain ⟨rfl, hwindow⟩ := hfirst hi.ge
  have hmain : r.mainOffset = r₀.windowInfo.windowSize := hat.mainOffset.trans hi.symm
  -- the first window has been read to its end
  have hused : r.windowInfo.offset ≥ r.windowInfo.windowSize := by
    have hoffset := hr.offset
    omega
  have hrequest : request r ∈ turnAccesses size r := by
    unfold turnAccesses
    rw [if_pos hused]
    exact List.mem_cons_self
  have hpage := (hvalid r hreached (hat.eof_eq_false (hi ▸ hmore)) _ hrequest).2
  rwa [hmain] at hpage

theorem inside_of_valid (hnonempty : 0 < r₀.filesize) :
    r₀.filesize + size ≤ r₀.content.length + r₀.interval := by
  obtain ⟨n, hn⟩ := records_of_valid hpos hsize hstart hvalid
  rw [Nat.mul_comm] at hn
  cases n with
  | zero => omega
  | succ n =>
    rw [Nat.succ_mul] at hn
    have hlast : n * r₀.interval < r₀.filesize := by omega
    obtain ⟨r, hreached, hat⟩ := reaches_record hpos hsize hstart hvalid n fun j hj =>
      (Nat.mul_le_mul_right _ hj.le).trans_lt hlast
    obtain ⟨start, hr, -⟩ := hat.window
    have hturn := hvalid r hreached (hat.eof_eq_false hlast)
    rw [← hat.content] at hturn
    have hinside := ((turn_valid_iff hr (hat.interval ▸ hsize)).mp hturn).2
    rw [hat.mainOffset, hat.content] at hinside
    omega

end Valid

/-- What the sizes have to be: `filesize` is the one that windows are cut from, `length` that of the
file that is read. -/
structure RequestsFit (filesize length interval size : Nat) : Prop where
  nonempty : 0 < filesize
  records : interval ∣ filesize
  fits : interval ≤ maxMmapWindowSize
  pages : maxMmapWindowSize < filesize → pageSize ∣ maxMmapWindowSize / interval * interval
  inside : filesize + size ≤ length + interval

theorem newWindowSize_unmapped (content : Bytes) (filepath : String) (filesize interval : Nat) :
    newWindowSize (unmapped content filepath filesize interval) =
      min filesize maxMmapWindowSize / interval * interval := by
  unfold newWindowSize unmapped
  simp only [Nat.sub_zero]
  split
  · rw [Nat.min_eq_right (by omega)]
  · rw [Nat.min_eq_left (by omega)]

theorem getNewWindow_unmapped {content : Bytes} {filepath : String} {filesize interval : Nat}
    {r₀ : ForwardReader} (h : getNewWindow (unmapped content filepath filesize interval) = .ok r₀) :
    AtRecord r₀ 0 r₀ ∧ SameFile (unmapped content filepath filesize interval) r₀ ∧
      r₀.windowInfo.windowSize = min filesize maxMmapWindowSize / interval * interval ∧
      0 < r₀.windowInfo.windowSize := by
  obtain ⟨hvalid, hleft, hsame⟩ := getNewWindow_ok (Nat.zero_le _) h
  refine ⟨⟨rfl, rfl, rfl, ?_, 0, hvalid, fun _ => ⟨rfl, rfl⟩⟩, hsame, ?_, by omega⟩
  · rw [Nat.zero_mul]
    exact hsame.mainOffset
  · rw [← newWindowSize_unmapped content filepath]
    unfold getNewWindow at h
    split at h
    · cases h
      rfl
    · cases h

/-- If all that is asked for up to the end is valid, the sizes fit. -/
theorem fit_of_valid {content : Bytes} {filepath : String} {filesize interval size : Nat}
    {r₀ : ForwardReader} (hpos : 0 < interval) (hsize : size ≤ interval)
    (h : getNewWindow (unmapped content filepath filesize interval) = .ok r₀)
    (hvalid : ∀ r, Reached size r₀ r → eof r = false →
      ∀ a ∈ turnAccesses size r, a.Valid content) :
    RequestsFit filesize content.length interval size := by
  obtain ⟨hstart, hsame, hwindow, hfirst⟩ := getNewWindow_unmapped h
  obtain rfl : r₀.interval = interval := hsame.interval
  obtain rfl : r₀.filesize = filesize := hsame.filesize
  obtain rfl : r₀.content = content := hsame.content
  have hrecord : r₀.interval ≤ min r₀.filesize maxMmapWindowSize := by
    by_contra hsmall
    rw [hwindow, Nat.div_eq_of_lt (Nat.not_le.mp hsmall), Nat.zero_mul] at hfirst
    exact Nat.lt_irrefl 0 hfirst
  have hnonempty : 0 < r₀.filesize := by omega
  refine ⟨hnonempty, records_of_valid hpos hsize hstart hvalid, by omega, fun hmore => ?_,
    inside_of_valid hpos hsize hstart hvalid hnonempty⟩
  rw [Nat.min_eq_right hmore.le] at hwindow
  rw [← hwindow]
  apply page_of_valid hpos hsize hstart hvalid
  have hle := Nat.div_mul_le_self maxMmapWindowSize r₀.interval
  omega

/-! ## Sizes that fit -/

theorem Reached.mappable {size : Nat} {r₀ r : ForwardReader} (h : Reached size r₀ r)
    (hr₀ : r₀.Mappable) (hsize : size ≤ r₀.interval)
    (hinside : r₀.filesize + size ≤ r₀.content.length + r₀.interval) :
    r.Mappable ∧ r.content = r₀.content ∧ r.filesize = r₀.filesize ∧ r.interval = r₀.interval := by
  induction h with
  | refl => exact ⟨hr₀, rfl, rfl, rfl⟩
  | tail _ hturn ih =>
    obtain ⟨hr, hcontent, hfilesize, hinterval⟩ := ih
    obtain ⟨hnoteof, data, hget⟩ := hturn
    have hmain := Nat.not_le.mp (of_decide_eq_false hnoteof)
    have hrecord := add_le_of_dvd hr.dvd_mainOffset hr.records hmain
    obtain ⟨r', hget', hr', -, hfilesize', hinterval', hcontent'⟩ :=
      get_mappable hr (hinterval ▸ hsize) hmain (by rw [hcontent]; omega)
    cases hget.symm.trans hget'
    exact ⟨hr', hcontent'.trans hcontent, hfilesize'.trans hfilesize,
      hinterval'.trans hinterval⟩

theorem turn_valid {size : Nat} {r : ForwardReader} (hr : r.Mappable) (hsize : size ≤ r.interval)
    (hinside : r.filesize + size ≤ r.content.length + r.interval) (hnoteof : eof r = false) :
    ∀ a ∈ turnAccesses size r, a.Valid r.content := by
  have hmain := Nat.not_le.mp (of_decide_eq_false hnoteof)
  have hrecord := add_le_of_dvd hr.dvd_mainOffset hr.records hmain
  obtain ⟨start, hvalid, -, -⟩ := hr.reading
  obtain ⟨r₁, -, hensure, -⟩ := ensureWindow_mappable hr hmain
  exact (turn_valid_iff hvalid hsize).mpr ⟨⟨r₁, hensure⟩, by omega⟩

theorem RequestsFit.maps {content : Bytes} {filesize interval size : Nat}
    (h : RequestsFit filesize content.length interval size) (hpos : 0 < interval)
    (filepath : String) :
    ∃ r₀, getNewWindow (unmapped content filepath filesize interval) = .ok r₀ ∧ r₀.Mappable ∧
      SameFile (unmapped content filepath filesize interval) r₀ := by
  apply getNewWindow_mappable hpos h.fits h.pages h.records h.nonempty
  · exact Nat.dvd_zero _
  · exact Nat.dvd_zero _

/-- All requests are valid, and a file of whole records is read to its end. -/
structure ValidRequests (movedFrom : String → String) (files : String → Option Bytes)
    (filepath : String) (content : Bytes) (interval size : Nat) : Prop where
  constructing : ∀ a ∈ constructAccesses movedFrom files filepath interval, a.Valid content
  reading : ∀ r₀ r, construct movedFrom files filepath interval = .ok r₀ → Reached size r₀ r →
    eof r = false → ∀ a ∈ turnAccesses size r, a.Valid content
  ends : interval ∣ content.length →
    ∃ r₀ fuel, construct movedFrom files filepath interval = .ok r₀ ∧
      (readAll size fuel r₀).2 = .eof

theorem RequestsFit.ends {content : Bytes} {filesize interval size : Nat}
    (h : RequestsFit filesize content.length interval size) {filepath : String}
    {r₀ : ForwardReader} (hr₀ : r₀.Mappable) (hsize : size ≤ interval)
    (hsame : SameFile (unmapped content filepath filesize interval) r₀) :
    ∃ fuel, (readAll size fuel r₀).2 = .eof := by
  obtain ⟨n, hn⟩ := h.records
  have hread := readAll_mappable (i := 0) (k := n) hr₀ (hsize.trans_eq hsame.interval.symm)
    (by rw [hsame.filesize, hsame.content, hsame.interval]; exact h.inside)
    (by rw [hsame.mainOffset, Nat.zero_mul]; rfl)
    (by rw [hsame.filesize, hsame.interval, Nat.zero_add, Nat.mul_comm]; exact hn)
  exact ⟨n, congrArg Prod.snd hread⟩

theorem construct_of_files {movedFrom : String → String} {files : String → Option Bytes}
    {filepath : String} {content other : Bytes} (hfile : files filepath = some content)
    (hother : files (movedFrom filepath) = some other) (interval : Nat) :
    construct movedFrom files filepath interval =
        getNewWindow (unmapped content filepath other.length interval) ∧
      constructAccesses movedFrom files filepath interval =
        [request (unmapped content filepath other.length interval)] := by
  constructor
  · simp only [construct, hother, hfile, unmapped]
  · simp only [constructAccesses, hother, hfile]

theorem RequestsFit.validRequests {movedFrom : String → String} {files : String → Option Bytes}
    {filepath : String} {content other : Bytes} {interval size : Nat}
    (h : RequestsFit other.length content.length interval size) (hpos : 0 < interval)
    (hsize : size ≤ interval) (hfile : files filepath = some content)
    (hother : files (movedFrom filepath) = some other) :
    ValidRequests movedFrom files filepath content interval size := by
  obtain ⟨hnew, hfirst⟩ := construct_of_files hfile hother interval
  obtain ⟨r₀, hmaps, hr₀, hsame⟩ := h.maps hpos filepath
  have hsize₀ : size ≤ r₀.interval := hsize.trans_eq hsame.interval.symm
  have hinside : r₀.filesize + size ≤ r₀.content.length + r₀.interval := by
    rw [hsame.filesize, hsame.content, hsame.interval]
    exact h.inside
  refine ⟨?_, fun r₀' r hread hreached hnoteof => ?_, fun _ => ?_⟩
  · rw [hfirst]
    exact List.forall_mem_singleton.mpr ((request_valid_iff content _).mpr ⟨r₀, hmaps⟩)
  · obtain rfl := Except.ok.inj (hmaps.symm.trans (hnew.symm.trans hread))
    obtain ⟨hr, hcontent, hfilesize, hinterval⟩ := hreached.mappable hr₀ hsize₀ hinside
    have hturn := turn_valid hr (hinterval ▸ hsize₀) (by rwa [hfilesize, hcontent, hinterval])
      hnoteof
    rwa [hcontent, hsame.content] at hturn
  · obtain ⟨fuel, heof⟩ := h.ends hr₀ hsize hsame
    exact ⟨r₀, fuel, hnew.trans hmaps, heof⟩

/-- The requests are valid exactly when the file left in the moved path is a nonempty one of whole
records which the windows can be cut to, and which does not end behind the file that is read; or
when there is no such file, so that nothing is asked for, and no whole records to be read. -/
theorem valid_requests_iff (movedFrom : String → String) {files : String → Option Bytes}
    {filepath : String} {content : Bytes} {interval size : Nat} (hpos : 0 < interval)
    (hsize : size ≤ interval) (hfile : files filepath = some content) :
    ValidRequests movedFrom files filepath content interval size ↔
      (files (movedFrom filepath) = none ∧ ¬ interval ∣ content.length) ∨
      ∃ other, files (movedFrom filepath) = some other ∧
        RequestsFit other.length content.length interval size := by
  -- no file by that name: the constructor throws before it asks for anything
  rcases hother : files (movedFrom filepath) with _ | other
  · have hnew : construct movedFrom files filepath interval = .error .noSuchFile := by
      simp only [construct, hother]
    have hnone : constructAccesses movedFrom files filepath interval = [] := by
      simp only [constructAccesses, hother]
    constructor
    · intro h
      refine .inl ⟨rfl, fun hwhole => ?_⟩
      obtain ⟨r₀, -, hread, -⟩ := h.ends hwhole
      rw [hnew] at hread
      cases hread
    · rintro (⟨-, hpart⟩ | ⟨other, hfound, -⟩)
      · refine ⟨?_, fun r₀ r hread => ?_, fun hwhole => absurd hwhole hpart⟩
        · rw [hnone]
          exact List.forall_mem_nil _
        · rw [hnew] at hread
          cases hread
      · cases hfound
  · obtain ⟨hnew, hfirst⟩ := construct_of_files hfile hother interval
    constructor
    · intro h
      have hrequest := h.constructing _ (hfirst ▸ List.mem_cons_self)
      obtain ⟨r₀, hmaps⟩ := (request_valid_iff content _).mp hrequest
      exact .inr ⟨other, rfl, fit_of_valid hpos hsize hmaps fun r hreached =>
        h.reading r₀ r (hnew.trans hmaps) hreached⟩
    · rintro (⟨hnone, -⟩ | ⟨_, hfound, hfit⟩)
      · cases hnone
      · obtain rfl := Option.some.inj hfound
        exact hfit.validRequests hpos hsize hfile hother

/-- With a path that a move leaves as it is, and with one that it empties. -/
theorem valid_requests_iff_moved :
    let files : String → Option Bytes := fun path =>
      if path = "data" then some [7, 0, 8, 0] else none
    ValidRequests (fun path => path) files "data" [7, 0, 8, 0] 2 1 ∧
      ¬ ValidRequests (fun _ => "") files "data" [7, 0, 8, 0] 2 1 := by
  intro files
  have hvalid := fun movedFrom => @valid_requests_iff movedFrom files "data" [7, 0, 8, 0] 2 1
    (by decide) (by decide) rfl
  constructor
  · exact (hvalid _).mpr (.inr ⟨_, rfl, by decide, by decide, by decide, by decide, by decide⟩)
  · rw [hvalid]
    rintro (⟨-, hpart⟩ | ⟨other, hother, -⟩)
    · exact hpart (by decide)
    · cases hother

/-- An empty file, whether a move leaves the path as it is or empties it. -/
theorem empty_file_not_read :
    let files : String → Option Bytes := fun path => if path = "data" then some [] else none
    ¬ ValidRequests (fun path => path) files "data" [] 32 8 ∧
      ¬ ValidRequests (fun _ => "") files "data" [] 32 8 := by
  intro files
  constructor
  · intro h
    have hrequest := h.constructing (.mmap 0 0) (by decide)
    exact absurd hrequest.1 (by decide)
  · intro h
    obtain ⟨r₀, fuel, hnew, -⟩ := h.ends (by decide)
    cases hnew

end AdvCppTP.KVReader.MmapIO
