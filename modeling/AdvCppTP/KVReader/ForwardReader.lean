import AdvCppTP.Lib.Runs
import Mathlib.Data.List.Range
import Mathlib.Algebra.Order.Group.Nat

/-! `ForwardReader`: a file read record by record through windows that `mmap` maps one after the
other. -/

namespace AdvCppTP.KVReader.MmapIO

abbrev Bytes := List UInt8

def maxMmapWindowSize : Nat := (1 <<< 30) / 4

def pageSize : Nat := 4096

inductive Failure
  | noSuchFile
  | notOpened
  | invalidArgument (msg : String)
  | runtimeError (msg : String)
  | undefined
  deriving DecidableEq, Repr

/-- `addr` is the offset in the file that the window's first byte is mapped from. -/
structure WindowInfo where
  addr : Option Nat
  offset : Nat
  windowSize : Nat
  deriving DecidableEq, Repr

/-- `content` is what is in the file that `fd_` refers to. -/
structure ForwardReader where
  content : Bytes
  filepath : String
  filesize : Nat
  interval : Nat
  mainOffset : Nat
  windowInfo : WindowInfo
  deriving DecidableEq, Repr

/-! ## Windows -/

def newWindowSize (r : ForwardReader) : Nat :=
  let tailSize := r.filesize - r.mainOffset
  let windowSize := if tailSize > maxMmapWindowSize then maxMmapWindowSize else tailSize
  windowSize / r.interval * r.interval

/-- `::mmap` takes offsets of whole pages and no empty windows. -/
def getNewWindow (r : ForwardReader) : Except Failure ForwardReader :=
  if pageSize ∣ r.mainOffset ∧ 0 < newWindowSize r then
    .ok { r with windowInfo := ⟨some r.mainOffset, 0, newWindowSize r⟩ }
  else .error (.runtimeError "get_new_window (Map failed): Invalid argument")

/-- `size` bytes of the mapped file: zeros up to the end of its last page, and no bytes behind. -/
def mapped (content : Bytes) (pos size : Nat) : Option Bytes :=
  if pos + size ≤ (content.length + pageSize - 1) / pageSize * pageSize then
    some (((content ++ List.replicate pageSize 0).drop pos).take size)
  else none

/-- `std::memcpy` from the window: what is outside it is not the reader's to read. -/
def memcpy (r : ForwardReader) (size : Nat) : Except Failure Bytes :=
  match r.windowInfo.addr with
  | none => .error .undefined
  | some addr =>
    if r.windowInfo.offset + size ≤ r.windowInfo.windowSize then
      (mapped r.content (addr + r.windowInfo.offset) size).elim (.error .undefined) .ok
    else .error .undefined

/-! ## The reader -/

def ensureWindow (r : ForwardReader) : Except Failure ForwardReader :=
  if r.windowInfo.offset ≥ r.windowInfo.windowSize then getNewWindow r else .ok r

def advance (r : ForwardReader) : ForwardReader :=
  { r with
    windowInfo := { r.windowInfo with offset := r.windowInfo.offset + r.interval }
    mainOffset := r.mainOffset + r.interval }

def get (size : Nat) (r : ForwardReader) : Except Failure (Bytes × ForwardReader) :=
  if size > r.interval then .error (.invalidArgument "sizeof data bigger than interval")
  else do
    let r ← ensureWindow r
    let data ← memcpy r size
    .ok (data, advance r)

def getOffset (r : ForwardReader) : Nat := r.mainOffset

def eof (r : ForwardReader) : Bool := r.mainOffset ≥ r.filesize

/-- The constructor. The members are initialised as the class declares them, `fd_`, `filepath_`,
`filesize_`, `interval_`: the size is asked for when the path has been moved from, and `movedFrom`
is what a move leaves in a string. -/
def construct (movedFrom : String → String) (files : String → Option Bytes) (filepath : String)
    (interval : Nat) : Except Failure ForwardReader :=
  let fd := files filepath
  match files (movedFrom filepath) with
  | none => .error .noSuchFile
  | some other =>
    match fd with
    | none => .error .notOpened
    | some content => getNewWindow ⟨content, filepath, other.length, interval, 0, ⟨none, 0, 0⟩⟩

inductive End
  | eof
  | threw (failure : Failure)
  | unfinished
  deriving DecidableEq, Repr

/-- `while (!eof()) { get_offset(); get(x); }`, with what each turn is told. -/
def readAll (size : Nat) : Nat → ForwardReader → List (Nat × Bytes) × End
  | 0, r => ([], if eof r then .eof else .unfinished)
  | fuel + 1, r =>
    if eof r then ([], .eof)
    else
      match get size r with
      | .error failure => ([], .threw failure)
      | .ok (data, r') =>
        ((getOffset r, data) :: (readAll size fuel r').1, (readAll size fuel r').2)

/-! ## What a window holds -/

/-- The window begins at `start` and is a part of the file; it is cut into records, of which some
have been read. -/
structure ForwardReader.Valid (r : ForwardReader) (start : Nat) : Prop where
  addr : r.windowInfo.addr = some start
  offset : start + r.windowInfo.offset = r.mainOffset
  whole : r.interval ∣ r.windowInfo.offset ∧ r.interval ∣ r.windowInfo.windowSize
  inWindow : r.windowInfo.offset ≤ r.windowInfo.windowSize
  inFile : start + r.windowInfo.windowSize ≤ r.filesize

/-- Behind the window comes another page or the end of the file. -/
def ForwardReader.Continues (r : ForwardReader) (start : Nat) : Prop :=
  pageSize ∣ start + r.windowInfo.windowSize ∨ start + r.windowInfo.windowSize = r.filesize

theorem add_le_of_dvd {d m n : Nat} (hm : d ∣ m) (hn : d ∣ n) (h : m < n) : m + d ≤ n := by
  have hle := Nat.le_of_dvd (Nat.sub_pos_of_lt h) (Nat.dvd_sub hn hm)
  omega

theorem newWindowSize_le (r : ForwardReader) : newWindowSize r ≤ r.filesize - r.mainOffset := by
  refine (Nat.div_mul_le_self _ _).trans ?_
  split
  · omega
  · exact Nat.le_refl _

/-- Two readers that differ in their windows. -/
structure SameFile (r r' : ForwardReader) : Prop where
  content : r'.content = r.content
  filesize : r'.filesize = r.filesize
  interval : r'.interval = r.interval
  mainOffset : r'.mainOffset = r.mainOffset

theorem getNewWindow_ok {r r' : ForwardReader} (hmain : r.mainOffset ≤ r.filesize)
    (h : getNewWindow r = .ok r') :
    r'.Valid r.mainOffset ∧ r'.windowInfo.offset < r'.windowInfo.windowSize ∧ SameFile r r' := by
  rw [getNewWindow] at h
  split at h
  case isFalse => cases h
  case isTrue hmaps =>
    obtain rfl := Except.ok.inj h
    refine ⟨⟨rfl, rfl, ⟨Nat.dvd_zero _, Nat.dvd_mul_left _ _⟩, Nat.zero_le _, ?_⟩, hmaps.2,
      ⟨rfl, rfl, rfl, rfl⟩⟩
    have hfits := newWindowSize_le r
    simp only
    omega

/-- A file of whole records is mapped window by window: each is as long as the largest one, which
ends at a page if more comes behind it, or reaches the end of the file. -/
theorem getNewWindow_maps {r : ForwardReader} (hpos : 0 < r.interval)
    (hfits : r.interval ≤ maxMmapWindowSize)
    (hpages : maxMmapWindowSize < r.filesize →
      pageSize ∣ maxMmapWindowSize / r.interval * r.interval)
    (hwhole : r.interval ∣ r.filesize - r.mainOffset) (hmain : r.mainOffset < r.filesize)
    (hpage : pageSize ∣ r.mainOffset) :
    ∃ r', getNewWindow r = .ok r' ∧ r'.Continues r.mainOffset := by
  have hmax : 0 < maxMmapWindowSize / r.interval * r.interval :=
    Nat.mul_pos (Nat.div_pos hfits hpos) hpos
  by_cases htail : r.filesize - r.mainOffset > maxMmapWindowSize
  · have hsize : newWindowSize r = maxMmapWindowSize / r.interval * r.interval := by
      rw [newWindowSize, if_pos htail]
    have hend := hpages (htail.trans_le (Nat.sub_le _ _))
    rw [getNewWindow, if_pos ⟨hpage, hsize ▸ hmax⟩]
    refine ⟨_, rfl, .inl ?_⟩
    rw [hsize]
    exact Nat.dvd_add hpage hend
  · have hsize : newWindowSize r = r.filesize - r.mainOffset := by
      rw [newWindowSize, if_neg htail]
      exact Nat.div_mul_cancel hwhole
    rw [getNewWindow, if_pos ⟨hpage, by omega⟩]
    refine ⟨_, rfl, .inr ?_⟩
    rw [hsize]
    exact Nat.add_sub_cancel' hmain.le

theorem mapped_of_le {content : Bytes} {pos size : Nat} (h : pos + size ≤ content.length) :
    mapped content pos size = some ((content.drop pos).take size) := by
  have hpage : content.length ≤ (content.length + pageSize - 1) / pageSize * pageSize := by
    rw [show pageSize = 4096 from rfl]
    omega
  rw [mapped, if_pos (h.trans hpage), List.drop_append_of_le_length (by omega),
    List.take_append_of_le_length (by rw [List.length_drop]; omega)]

/-! ## One record -/

theorem ForwardReader.Valid.mainOffset_le {r : ForwardReader} {start : Nat} (h : r.Valid start) :
    r.mainOffset ≤ r.filesize := by
  have hoffset := h.offset
  have hwindow := h.inWindow
  have hfile := h.inFile
  omega

theorem ensureWindow_ok {r r₁ : ForwardReader} {start : Nat} (hr : r.Valid start)
    (h : ensureWindow r = .ok r₁) :
    (∃ start₁, r₁.Valid start₁) ∧ r₁.windowInfo.offset < r₁.windowInfo.windowSize ∧
      SameFile r r₁ := by
  rw [ensureWindow] at h
  split at h
  case isTrue hused =>
    obtain ⟨hvalid, hleft, hsame⟩ := getNewWindow_ok hr.mainOffset_le h
    exact ⟨⟨_, hvalid⟩, hleft, hsame⟩
  case isFalse hunused =>
    obtain rfl := Except.ok.inj h
    exact ⟨⟨start, hr⟩, Nat.not_le.mp hunused, ⟨rfl, rfl, rfl, rfl⟩⟩

theorem valid_advance {r : ForwardReader} {start : Nat} (h : r.Valid start)
    (hleft : r.windowInfo.offset < r.windowInfo.windowSize) :
    (advance r).Valid start where
  addr := h.addr
  offset := by
    rw [advance, ← h.offset, Nat.add_assoc]
  whole := ⟨Nat.dvd_add h.whole.1 (Nat.dvd_refl _), h.whole.2⟩
  inWindow := add_le_of_dvd h.whole.1 h.whole.2 hleft
  inFile := h.inFile

/-- Whatever the file is, a record that can be read lies in the file as a whole. -/
theorem get_ok {size : Nat} {r r' : ForwardReader} {data : Bytes} {start : Nat}
    (hr : r.Valid start) (h : get size r = .ok (data, r')) :
    (∃ start', r'.Valid start') ∧ r'.mainOffset = r.mainOffset + r.interval ∧
      r'.filesize = r.filesize ∧ r'.interval = r.interval := by
  rw [get] at h
  split at h
  · cases h
  obtain ⟨r₁, hensure, hrest⟩ := Lib.bind_eq_ok.mp h
  obtain ⟨bytes, -, hdata⟩ := Lib.bind_eq_ok.mp hrest
  cases hdata
  obtain ⟨⟨start₁, hvalid⟩, hleft, hsame⟩ := ensureWindow_ok hr hensure
  refine ⟨⟨start₁, valid_advance hvalid hleft⟩, ?_, hsame.filesize, hsame.interval⟩
  rw [advance, hsame.mainOffset, hsame.interval]

theorem memcpy_valid {r : ForwardReader} {start size : Nat} (h : r.Valid start)
    (hleft : r.windowInfo.offset < r.windowInfo.windowSize) (hsize : size ≤ r.interval)
    (hcontent : r.mainOffset + size ≤ r.content.length) :
    memcpy r size = .ok ((r.content.drop r.mainOffset).take size) := by
  have hrecord := add_le_of_dvd h.whole.1 h.whole.2 hleft
  simp only [memcpy, h.addr]
  rw [if_pos (by omega), h.offset, mapped_of_le hcontent]
  rfl

/-- A record that is in the window that there is then, and in the file, is read. -/
theorem get_of_ensureWindow {size : Nat} {r r₁ : ForwardReader} {start : Nat} (hr : r.Valid start)
    (hensure : ensureWindow r = .ok r₁) (hsize : size ≤ r.interval)
    (hcontent : r.mainOffset + size ≤ r.content.length) :
    get size r = .ok ((r.content.drop r.mainOffset).take size, advance r₁) := by
  obtain ⟨⟨start₁, hvalid₁⟩, hleft, hsame⟩ := ensureWindow_ok hr hensure
  have hcopy := memcpy_valid hvalid₁ hleft (hsame.interval ▸ hsize)
    (by rwa [hsame.content, hsame.mainOffset])
  rw [get, if_neg (Nat.not_lt.mpr hsize), hensure]
  simp only [bind, Except.bind, hcopy, hsame.content, hsame.mainOffset]

/-- What mapping the windows needs: whole records, one of which fits in a window, and where there
is more than one window, ends of them at pages. -/
structure ForwardReader.Mappable (r : ForwardReader) : Prop where
  pos : 0 < r.interval
  fits : r.interval ≤ maxMmapWindowSize
  pages : maxMmapWindowSize < r.filesize →
    pageSize ∣ maxMmapWindowSize / r.interval * r.interval
  records : r.interval ∣ r.filesize
  reading : ∃ start, r.Valid start ∧ r.Continues start ∧ r.interval ∣ start

theorem ForwardReader.Mappable.dvd_mainOffset {r : ForwardReader} (hr : r.Mappable) :
    r.interval ∣ r.mainOffset := by
  obtain ⟨start, hvalid, -, hstart⟩ := hr.reading
  rw [← hvalid.offset]
  exact Nat.dvd_add hstart hvalid.whole.1

theorem ensureWindow_mappable {r : ForwardReader} (hr : r.Mappable)
    (hmain : r.mainOffset < r.filesize) :
    ∃ r₁ start, ensureWindow r = .ok r₁ ∧ r₁.Valid start ∧ r₁.Continues start ∧
      r.interval ∣ start := by
  obtain ⟨start, hvalid, hcontinues, hstart⟩ := hr.reading
  by_cases hused : r.windowInfo.offset ≥ r.windowInfo.windowSize
  · have hpage : pageSize ∣ r.mainOffset := by
      have hall : r.windowInfo.offset = r.windowInfo.windowSize := le_antisymm hvalid.inWindow hused
      rw [ForwardReader.Continues, ← hall, hvalid.offset] at hcontinues
      exact hcontinues.resolve_right hmain.ne
    obtain ⟨r₁, hnew, hcontinues₁⟩ := getNewWindow_maps hr.pos hr.fits hr.pages
      (Nat.dvd_sub hr.records hr.dvd_mainOffset) hmain hpage
    refine ⟨r₁, r.mainOffset, ?_, (getNewWindow_ok hmain.le hnew).1, hcontinues₁,
      hr.dvd_mainOffset⟩
    rw [ensureWindow, if_pos hused, hnew]
  · exact ⟨r, start, by rw [ensureWindow, if_neg hused], hvalid, hcontinues, hstart⟩

/-- The first window of a reader at the beginning of records and of a page. -/
theorem getNewWindow_mappable {r : ForwardReader} (hpos : 0 < r.interval)
    (hfits : r.interval ≤ maxMmapWindowSize)
    (hpages : maxMmapWindowSize < r.filesize →
      pageSize ∣ maxMmapWindowSize / r.interval * r.interval)
    (hrecords : r.interval ∣ r.filesize) (hmain : r.mainOffset < r.filesize)
    (hpage : pageSize ∣ r.mainOffset) (hstart : r.interval ∣ r.mainOffset) :
    ∃ r', getNewWindow r = .ok r' ∧ r'.Mappable ∧ SameFile r r' := by
  have hwhole := Nat.dvd_sub hrecords hstart
  obtain ⟨r', hmaps, hcontinues⟩ := getNewWindow_maps hpos hfits hpages hwhole hmain hpage
  obtain ⟨hvalid, -, hsame⟩ := getNewWindow_ok hmain.le hmaps
  refine ⟨r', hmaps, ⟨?_, ?_, ?_, ?_, r.mainOffset, hvalid, hcontinues, ?_⟩, hsame⟩
  · exact hsame.interval ▸ hpos
  · exact hsame.interval ▸ hfits
  · exact hsame.interval ▸ hsame.filesize ▸ hpages
  · exact hsame.interval ▸ hsame.filesize ▸ hrecords
  · exact hsame.interval ▸ hstart

theorem get_mappable {size : Nat} {r : ForwardReader} (hr : r.Mappable) (hsize : size ≤ r.interval)
    (hmain : r.mainOffset < r.filesize) (hcontent : r.mainOffset + size ≤ r.content.length) :
    ∃ r', get size r = .ok ((r.content.drop r.mainOffset).take size, r') ∧ r'.Mappable ∧
      r'.mainOffset = r.mainOffset + r.interval ∧ r'.filesize = r.filesize ∧
      r'.interval = r.interval ∧ r'.content = r.content := by
  obtain ⟨start, hvalid, -, -⟩ := hr.reading
  obtain ⟨r₁, start₁, hensure, hvalid₁, hcontinues₁, hstart₁⟩ := ensureWindow_mappable hr hmain
  obtain ⟨-, hleft, hsame⟩ := ensureWindow_ok hvalid hensure
  have hvalid' := valid_advance hvalid₁ hleft
  refine ⟨advance r₁, get_of_ensureWindow hvalid hensure hsize hcontent,
    ⟨?_, ?_, ?_, ?_, start₁, hvalid', hcontinues₁, ?_⟩, ?_, hsame.filesize, hsame.interval,
    hsame.content⟩
  · exact hsame.interval ▸ hr.pos
  · exact hsame.interval ▸ hr.fits
  · exact hsame.interval ▸ hsame.filesize ▸ hr.pages
  · exact hsame.interval ▸ hsame.filesize ▸ hr.records
  · exact hsame.interval ▸ hstart₁
  · rw [advance, hsame.mainOffset, hsame.interval]

/-- What reading needs of a file of whole records. -/
structure ForwardReader.Whole (r : ForwardReader) : Prop where
  pos : 0 < r.interval
  windows : r.interval ∣ maxMmapWindowSize
  records : r.interval ∣ r.filesize
  content : r.content.length = r.filesize
  reading : ∃ start, r.Valid start ∧ r.Continues start ∧ r.interval ∣ start

theorem page_dvd_windows {interval : Nat} (h : interval ∣ maxMmapWindowSize) :
    pageSize ∣ maxMmapWindowSize / interval * interval := by
  rw [Nat.div_mul_cancel h]
  decide

theorem ForwardReader.Whole.mappable {r : ForwardReader} (hr : r.Whole) : r.Mappable where
  pos := hr.pos
  fits := Nat.le_of_dvd (by decide) hr.windows
  pages _ := page_dvd_windows hr.windows
  records := hr.records
  reading := hr.reading

/-! ## Whole files -/

def recordAt (content : Bytes) (interval size i : Nat) : Nat × Bytes :=
  (i * interval, (content.drop (i * interval)).take size)

/-- What is left of a file of whole records is read record by record. -/
theorem readAll_mappable {size : Nat} {r : ForwardReader} (hr : r.Mappable)
    (hsize : size ≤ r.interval) (hinside : r.filesize + size ≤ r.content.length + r.interval)
    {i k : Nat} (hmain : r.mainOffset = i * r.interval)
    (hfile : r.filesize = (i + k) * r.interval) :
    readAll size k r = ((List.range' i k).map (recordAt r.content r.interval size), .eof) := by
  induction k generalizing r i with
  | zero =>
    have heof : eof r = true := by
      rw [eof, hmain, hfile]
      simp
    rw [readAll, if_pos heof]
    rfl
  | succ k ih =>
    have hmore : r.mainOffset < r.filesize := by
      rw [hmain, hfile]
      exact Nat.mul_lt_mul_of_pos_right (by omega) hr.pos
    have heof : ¬ eof r = true := by
      rw [eof, decide_eq_true_eq]
      exact Nat.not_le.mpr hmore
    have hrecord := add_le_of_dvd hr.dvd_mainOffset hr.records hmore
    obtain ⟨r', hget, hr', hmain', hfilesize, hinterval, hcontent⟩ :=
      get_mappable hr hsize hmore (by omega)
    have hrest := ih (i := i + 1) hr' (hinterval ▸ hsize)
      (by rwa [hfilesize, hcontent, hinterval])
      (by rw [hmain', hmain, hinterval, Nat.succ_mul])
      (by rw [hfilesize, hfile, hinterval, Nat.add_right_comm, Nat.add_assoc])
    rw [readAll, if_neg heof, hget]
    simp only [hrest, hinterval, hcontent, List.range'_succ, List.map_cons, getOffset]
    rw [recordAt, hmain]

theorem ForwardReader.Valid.filesize_eq {r : ForwardReader} {start : Nat} (h : r.Valid start)
    (heof : eof r = true) : r.filesize = r.mainOffset := by
  rw [eof, decide_eq_true_eq] at heof
  exact le_antisymm heof h.mainOffset_le

/-- A reader that reaches the end of the file has read as many records as fill it. -/
theorem readAll_eof {size : Nat} (fuel : Nat) {r : ForwardReader} {start : Nat} (hr : r.Valid start)
    (h : (readAll size fuel r).2 = .eof) :
    r.filesize = r.mainOffset + (readAll size fuel r).1.length * r.interval := by
  induction fuel generalizing r start with
  | zero =>
    rw [readAll] at h ⊢
    by_cases heof : eof r = true
    · rw [hr.filesize_eq heof, List.length_nil, Nat.zero_mul, Nat.add_zero]
    · rw [if_neg heof] at h
      cases h
  | succ fuel ih =>
    rw [readAll] at h ⊢
    by_cases heof : eof r = true
    · rw [if_pos heof, hr.filesize_eq heof, List.length_nil, Nat.zero_mul, Nat.add_zero]
    · rw [if_neg heof] at h ⊢
      rcases hget : get size r with failure | ⟨data, r'⟩
      · rw [hget] at h
        cases h
      · rw [hget] at h
        obtain ⟨⟨start', hvalid⟩, hmain, hfilesize, hinterval⟩ := get_ok hr hget
        have hrest := ih hvalid h
        rw [hfilesize, hmain, hinterval] at hrest
        simp only [List.length_cons]
        rw [hrest, Nat.succ_mul]
        omega

theorem getNewWindow_first {content other : Bytes} (filepath : String) {interval n : Nat}
    (hpos : 0 < interval) (hdvd : interval ∣ maxMmapWindowSize) (hn : 1 ≤ n)
    (hcontent : content.length = n * interval) (hother : other.length = n * interval) :
    ∃ r, getNewWindow ⟨content, filepath, other.length, interval, 0, ⟨none, 0, 0⟩⟩ = .ok r ∧
      SameFile ⟨content, filepath, other.length, interval, 0, ⟨none, 0, 0⟩⟩ r ∧ r.Whole := by
  have hlt : 0 < other.length := hother ▸ Nat.mul_pos hn hpos
  have hrecords : interval ∣ other.length := hother ▸ Nat.dvd_mul_left _ _
  obtain ⟨r, hnew, hr, hsame⟩ := getNewWindow_mappable
    (r := ⟨content, filepath, other.length, interval, 0, ⟨none, 0, 0⟩⟩) hpos
    (Nat.le_of_dvd (by decide) hdvd) (fun _ => page_dvd_windows hdvd) hrecords hlt (Nat.dvd_zero _)
    (Nat.dvd_zero _)
  refine ⟨r, hnew, hsame, hr.pos, ?_, hr.records, ?_, hr.reading⟩
  · exact hsame.interval ▸ hdvd
  · rw [hsame.content, hsame.filesize, hcontent, hother]

/-- The loop of a reader of `content` makes `n` turns, each of which is told its record's offset
and gets the record from the window. -/
def ReadsSequentially (movedFrom : String → String) (files : String → Option Bytes)
    (filepath : String) (content : Bytes) (interval size n : Nat) : Prop :=
  ∃ r fuel, construct movedFrom files filepath interval = .ok r ∧
    readAll size fuel r = ((List.range n).map (recordAt content interval size), .eof)

/-- Reading through windows is reading in sequence exactly when the size that the constructor asks
for, of the file whose name is left in the moved path, is that of the file it reads. -/
theorem reads_sequentially_iff (movedFrom : String → String) (files : String → Option Bytes)
    {filepath : String} {content : Bytes} {interval size n : Nat} (hpos : 0 < interval)
    (hdvd : interval ∣ maxMmapWindowSize) (hsize : size ≤ interval) (hn : 1 ≤ n)
    (hfile : files filepath = some content) (hlen : content.length = n * interval) :
    ReadsSequentially movedFrom files filepath content interval size n ↔
      ∃ other, files (movedFrom filepath) = some other ∧ other.length = n * interval := by
  constructor
  · rintro ⟨r, fuel, hnew, hread⟩
    rcases hother : files (movedFrom filepath) with _ | other
    · simp only [construct, hother] at hnew
      cases hnew
    simp only [construct, hother, hfile] at hnew
    obtain ⟨hvalid, -, hsame⟩ := getNewWindow_ok (Nat.zero_le _) hnew
    have hall := readAll_eof fuel hvalid (congrArg Prod.snd hread)
    rw [hread, List.length_map, List.length_range, hsame.filesize, hsame.mainOffset,
      hsame.interval, Nat.zero_add] at hall
    exact ⟨other, rfl, hall⟩
  · rintro ⟨other, hother, hlength⟩
    obtain ⟨r, hnew, hsame, hwhole⟩ := getNewWindow_first filepath hpos hdvd hn hlen hlength
    have hread := readAll_mappable (i := 0) (k := n) hwhole.mappable
      (hsize.trans_eq hsame.interval.symm)
      (by rw [hwhole.content, hsame.interval]; exact Nat.add_le_add_left hsize _)
      (by rw [hsame.mainOffset, Nat.zero_mul])
      (by rw [hsame.filesize, hsame.interval, Nat.zero_add, hlength])
    rw [hsame.content, hsame.interval, ← List.range_eq_range'] at hread
    refine ⟨r, n, ?_, hread⟩
    simp only [construct, hother, hfile, hnew]

/-- With a path that a move leaves as it is, and with one that it empties. -/
theorem reads_sequentially_iff_moved :
    let files : String → Option Bytes := fun path =>
      if path = "data" then some [7, 0, 8, 0] else none
    ReadsSequentially (fun path => path) files "data" [7, 0, 8, 0] 2 1 2 ∧
      ¬ ReadsSequentially (fun _ => "") files "data" [7, 0, 8, 0] 2 1 2 := by
  intro files
  have hread := fun movedFrom => @reads_sequentially_iff movedFrom files "data" [7, 0, 8, 0] 2 1 2
    (by decide) (by decide) (by decide) (by decide) rfl rfl
  refine ⟨(hread _).mpr ⟨_, rfl, rfl⟩, fun hmoved => ?_⟩
  obtain ⟨other, hother, -⟩ := (hread _).mp hmoved
  cases hother

theorem moved_path_read :
    ¬ ∀ (files : String → Option Bytes) (filepath : String) (content : Bytes)
      (interval size n : Nat), 0 < interval → interval ∣ maxMmapWindowSize → size ≤ interval →
      1 ≤ n → files filepath = some content → content.length = n * interval →
      ReadsSequentially (fun _ => "") files filepath content interval size n := by
  intro h
  obtain ⟨r, fuel, hnew, -⟩ := h (fun path => if path = "data" then some [7, 0, 8, 0] else none)
    "data" [7, 0, 8, 0] 2 1 2 (by decide) (by decide) (by decide) (by decide) rfl rfl
  cases hnew

end AdvCppTP.KVReader.MmapIO
