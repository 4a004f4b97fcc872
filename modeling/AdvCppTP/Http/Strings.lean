import AdvCppTP.Lib.CString
import AdvCppTP.Lib.Emplace
import AdvCppTP.Lib.Search

/-! The string functions of `HttpFramework` (`utils.cpp` and `constants.hpp`) over bytes. A call
that the standard library leaves undefined is an outcome of its own. -/

namespace AdvCppTP.Http

abbrev Bytes := List UInt8

def ascii (s : String) : Bytes := s.toList.map fun c => UInt8.ofNat c.toNat

inductive StdError
  | outOfRange
  | invalidArgument
  | undefined
  deriving DecidableEq, Repr

/-! ## `constants.hpp` -/

def endline : Bytes := ascii "\r\n"
def questionMark : Bytes := ascii "?"
def whitespaces : Bytes := ascii " \t"
def headersEnd : Bytes := ascii "\r\n\r\n"
def versionSep : Bytes := ascii "/"
def separator : Bytes := ascii ":"
def contentLength : Bytes := ascii "content-length"

inductive RequestMethod
  | get
  | post
  | unsupported
  deriving DecidableEq, Repr

inductive HttpVersion
  | v1_0
  | v1_1
  | unsupported
  deriving DecidableEq, Repr

/-! ## Views -/

/-- `pos + k` for a result of `find` and `1 ≤ k`, in `size_t`: `npos + k` wraps to `k - 1`. -/
def plus (pos : Option Nat) (k : Nat) : Nat :=
  match pos with
  | some i => i + k
  | none => k - 1

/-- `view.substr(0, n)`. -/
def upTo (view : Bytes) (n : Option Nat) : Bytes :=
  match n with
  | some n => view.take n
  | none => view

/-- `view.substr(pos)`; `none` is `npos`. -/
def substrFrom (view : Bytes) (pos : Option Nat) : Except StdError Bytes :=
  match pos with
  | some pos => if pos ≤ view.length then .ok (view.drop pos) else .error .outOfRange
  | none => .error .outOfRange

def removePrefix (view : Bytes) (n : Nat) : Except StdError Bytes :=
  if n ≤ view.length then .ok (view.drop n) else .error .undefined

def findFirstNotOf (set view : Bytes) (pos : Nat) : Option Nat :=
  ((view.drop pos).findIdx? fun c => c ∉ set).map (· + pos)

theorem forall_mem_of_all {p : UInt8 → Prop} [DecidablePred p] {s : Bytes}
    (h : s.all (fun c => decide (p c)) = true) : ∀ c ∈ s, p c :=
  fun c hc => of_decide_eq_true (List.all_eq_true.mp h c hc)

theorem removePrefix_of_le {view : Bytes} {n : Nat} (h : n ≤ view.length) :
    removePrefix view n = .ok (view.drop n) :=
  if_pos h

theorem substrFrom_of_le {view : Bytes} {n : Nat} (h : n ≤ view.length) :
    substrFrom view (some n) = .ok (view.drop n) :=
  if_pos h

theorem plus_find_le (pat view : Bytes) (hpat : pat.length = 1) :
    plus (Lib.find pat view 0) 1 ≤ view.length := by
  rcases h : Lib.find pat view 0 with _ | i
  · exact Nat.zero_le _
  · exact hpat ▸ Lib.find_add_length h

theorem length_upTo_le (view : Bytes) (n : Option Nat) : (upTo view n).length ≤ view.length := by
  cases n with
  | none => exact Nat.le_refl _
  | some n => exact List.length_take_le' n view

/-! ## Heads of messages -/

def headBytes (line : Bytes) (lines : List Bytes) : Bytes :=
  line ++ endline ++ (lines.flatMap fun l => l ++ endline) ++ endline

theorem headBytes_append (line : Bytes) (lines : List Bytes) (rest : Bytes) :
    headBytes line lines ++ rest =
      line ++ 13 :: 10 :: ((lines.flatMap fun l => l ++ [13, 10]) ++ 13 :: 10 :: rest) := by
  simp only [headBytes, show endline = [13, 10] from rfl, List.append_assoc, List.cons_append,
    List.nil_append]

theorem length_headBytes (line : Bytes) (lines : List Bytes) :
    (headBytes line lines).length =
      line.length + (lines.flatMap fun l => l ++ endline).length + 4 := by
  simp only [headBytes, List.length_append, show endline.length = 2 from rfl]
  omega

theorem firstOcc_headBytes {line : Bytes} {lines : List Bytes} (hline : ¬ endline <:+: line)
    (hlines : ∀ l ∈ lines, l ≠ [] ∧ ¬ endline <:+: l) (rest : Bytes) :
    Lib.firstOcc headersEnd (headBytes line lines ++ rest) =
      some ((headBytes line lines).length - 4) := by
  rw [headBytes_append, length_headBytes, Nat.add_sub_cancel]
  exact Lib.firstOcc_lines (by decide) hline hlines rest

theorem drop_headBytes (line : Bytes) (lines : List Bytes) (rest : Bytes) :
    (headBytes line lines ++ rest).drop ((headBytes line lines).length - 4 + 4) = rest := by
  refine List.drop_left' ?_
  rw [length_headBytes, Nat.add_sub_cancel]

/-! ## `utils.cpp` -/

def isSpace (c : UInt8) : Bool := c = 32 ∨ 9 ≤ c ∧ c ≤ 13

def tolower (c : UInt8) : UInt8 := if 65 ≤ c ∧ c ≤ 90 then c + 32 else c

def toLowercase (str : Bytes) : Bytes := str.map tolower

/-- The loop of `rtrim` from index `i` down; `strchr` also finds the NUL that ends its string. -/
def rtrimLoop (v : Bytes) : Nat → Nat
  | 0 => 0
  | i + 1 =>
    if v.getD (i + 1) 0 ∈ whitespaces ∨ v.getD (i + 1) 0 = 0 then rtrimLoop v i else i + 1

def rtrim (v : Bytes) : Bytes :=
  match v.length with
  | 0 => v
  | size + 1 => v.take (rtrimLoop v size + 1)

def extract (stream : Bytes) : Bytes × Bytes :=
  let rest := stream.dropWhile isSpace
  (rest.takeWhile fun c => !isSpace c, rest.dropWhile fun c => !isSpace c)

def digitValue (base : Nat) (c : UInt8) : Option Nat :=
  let value :=
    if 48 ≤ c ∧ c ≤ 57 then c.toNat - 48
    else if 97 ≤ tolower c ∧ tolower c ≤ 122 then (tolower c).toNat - 87
    else base
  if value < base then some value else none

def readDigits (base acc : Nat) : Bytes → Nat
  | [] => acc
  | c :: s =>
    match digitValue base c with
    | some value => readDigits base (acc * base + value) s
    | none => acc

def readSign : Bytes → Bool × Bytes
  | 43 :: s => (false, s)
  | 45 :: s => (true, s)
  | s => (false, s)

def stoull (str : Bytes) : Except StdError Nat :=
  let (minus, s) := readSign (str.dropWhile isSpace)
  match (s.head?).bind (digitValue 10) with
  | none => .error .invalidArgument
  | some _ =>
    let value := readDigits 10 0 s
    if UInt64.size ≤ value then .error .outOfRange
    else .ok (if minus then (UInt64.size - value) % UInt64.size else value)

/-- The low byte of `std::strtoul(hex, nullptr, 16)` for the two characters of an escape. -/
def hexByte (a b : UInt8) : UInt8 :=
  let (minus, s) := readSign ([a, b].dropWhile isSpace)
  let value := UInt8.ofNat (readDigits 16 0 s)
  if minus then 0 - value else value

def decodeUrlLoop (result : Bytes) : Bytes → Bytes
  | [] => result
  | c :: a :: b :: rest =>
    if c = 37 then decodeUrlLoop (result ++ [hexByte a b]) rest
    else decodeUrlLoop (result ++ [c]) (a :: b :: rest)
  | c :: rest => if c = 37 then [] else decodeUrlLoop (result ++ [c]) rest

def decodeUrl (encodedStr : Bytes) : Bytes := decodeUrlLoop [] encodedStr

abbrev StringMap := AList fun _ : Bytes => Bytes

/-- The loop of `parse_query_string`, whose turns are at most as many as there are bytes. -/
def parseQueryLoop : Nat → Bytes → StringMap → Except StdError StringMap
  | _, [], params => .ok params
  | 0, _ :: _, _ => .error .undefined
  | fuel + 1, c :: rest, params => do
    let queryString := if c = 38 then rest else c :: rest
    let line := upTo queryString (Lib.find (ascii "&") queryString 0)
    let headerLen := Lib.find (ascii "=") line 0
    let header := upTo line headerLen
    let value ← substrFrom line (some (plus headerLen 1))
    let queryString ← removePrefix queryString line.length
    parseQueryLoop fuel queryString (Lib.emplace (decodeUrl header) (decodeUrl value) params)

def parseQueryString (queryString : Bytes) (params : StringMap) : Except StdError StringMap :=
  parseQueryLoop queryString.length queryString params

def RequestMethod.toBytes : RequestMethod → Bytes
  | .get => ascii "GET"
  | .post => ascii "POST"
  | .unsupported => []

def HttpVersion.toBytes : HttpVersion → Bytes
  | .v1_0 => ascii "HTTP/1.0"
  | .v1_1 => ascii "HTTP/1.1"
  | .unsupported => []

end AdvCppTP.Http
