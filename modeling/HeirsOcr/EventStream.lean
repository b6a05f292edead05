import Mathlib.Data.Bool.AllAny
import Mathlib.Tactic

/-!
# Server-sent events

The text of a stream of events and the reader of it. A message is an event name and a line of
data; a comment is there for the connection alone. A reader takes the stream one character at a
time, so what it has read of a stream that was cut anywhere is what it has read of the whole lines.
-/
namespace HeirsOcr.EventStream

/-- What a server writes at a time: a comment, or an event with one line of data. -/
inductive Frame where
  | comment (text : List Char)
  | message (event data : List Char)

def DATA : List Char := "data".toList

def EVENT : List Char := "event".toList

def Frame.render : Frame → List Char
  | .comment text => ':' :: text ++ ['\n', '\n']
  | .message event data =>
    EVENT ++ ':' :: ' ' :: event ++ '\n' :: DATA ++ ':' :: ' ' :: data ++ ['\n', '\n']

/-- An event as a listener gets it. -/
structure Message where
  event : List Char
  data : List Char
  deriving DecidableEq

/-- The name of an event that has none. -/
def MESSAGE : List Char := "message".toList

/-- A reader in the middle of a stream. -/
structure Reader where
  /-- The line it is in. -/
  line : List Char
  /-- The character before was a carriage return, so a line feed ends no line of its own. -/
  afterReturn : Bool
  event : List Char
  data : List Char
  messages : List Message

def Reader.start : Reader := ⟨[], false, [], [], []⟩

/-- A value without the space that may stand before it. -/
def dropSpace : List Char → List Char
  | ' ' :: value => value
  | value => value

/-- An empty line: the event so far goes out, unless it has no data. -/
def Reader.dispatch (r : Reader) : Reader :=
  { r with
    event := []
    data := []
    messages :=
      if r.data = [] then r.messages
      else r.messages ++ [⟨if r.event = [] then MESSAGE else r.event, r.data.dropLast⟩] }

/-- A line that is not empty: a comment, or a field. -/
def Reader.field (r : Reader) (line : List Char) : Reader :=
  let name := line.takeWhile (· ≠ ':')
  let value := dropSpace ((line.dropWhile (· ≠ ':')).drop 1)
  if name = EVENT then { r with event := value }
  else if name = DATA then { r with data := r.data ++ value ++ ['\n'] }
  else r

/-- The line is over. -/
def Reader.endLine (r : Reader) : Reader :=
  let line := r.line
  let r := { r with line := [] }
  if line = [] then r.dispatch else r.field line

def Reader.feed (r : Reader) (c : Char) : Reader :=
  if c = '\n' then if r.afterReturn then { r with afterReturn := false } else r.endLine
  else if c = '\r' then { r.endLine with afterReturn := true }
  else { r with line := r.line ++ [c], afterReturn := false }

def Reader.read (r : Reader) (text : List Char) : Reader := text.foldl Reader.feed r

/-- The messages of a stream. -/
def readStream (text : List Char) : List Message := (Reader.start.read text).messages

/-- No line ends in it. -/
def OneLine (text : List Char) : Prop := ∀ c ∈ text, c ≠ '\n' ∧ c ≠ '\r'

theorem read_append (r : Reader) (text text' : List Char) :
    r.read (text ++ text') = (r.read text).read text' := List.foldl_append

theorem read_of_oneLine {text : List Char} (h : OneLine text) {r : Reader}
    (hr : r.afterReturn = false) : r.read text = { r with line := r.line ++ text } := by
  induction text generalizing r with
  | nil => simp [Reader.read]
  | cons c text ih =>
    obtain ⟨hfeed, hreturn⟩ := h c List.mem_cons_self
    have hrest : OneLine text := fun d hd => h d (List.mem_cons_of_mem c hd)
    have hstep : r.feed c = { r with line := r.line ++ [c] } := by
      rw [Reader.feed, if_neg hfeed, if_neg hreturn, ← hr]
    show (r.feed c).read text = _
    have hread := @ih hrest { r with line := r.line ++ [c] } hr
    rw [hstep, hread]
    simp

/-- A line read from its start. -/
theorem read_line {text : List Char} (h : OneLine text) {r : Reader} (hline : r.line = [])
    (hr : r.afterReturn = false) : r.read (text ++ ['\n']) =
      if text = [] then r.dispatch else r.field text := by
  rw [read_append, read_of_oneLine h hr, hline, List.nil_append]
  show Reader.feed _ '\n' = _
  rw [Reader.feed, if_pos rfl, if_neg (by simp [hr])]
  unfold Reader.endLine
  have hself : ({ r with line := [] } : Reader) = r := by rw [← hline]
  simp only [hself]

/-- What a frame tells a listener. -/
def Frame.messages : Frame → List Message
  | .comment _ => []
  | .message event data => [⟨event, data⟩]

/-- A frame of one line each; the name of an event is not empty. -/
def Frame.Plain : Frame → Prop
  | .comment text => OneLine text
  | .message event data => OneLine event ∧ event ≠ [] ∧ OneLine data

/-- A field with a value of one line. -/
theorem field_eq (r : Reader) {name : List Char} (hname : ∀ c ∈ name, decide (c ≠ ':') = true)
    (value : List Char) : r.field (name ++ ':' :: ' ' :: value) =
      if name = EVENT then { r with event := value }
      else if name = DATA then { r with data := r.data ++ value ++ ['\n'] } else r := by
  unfold Reader.field
  rw [List.takeWhile_append_of_pos hname, List.dropWhile_append_of_pos hname]
  simp [dropSpace]

theorem oneLine_append {a b : List Char} (ha : OneLine a) (hb : OneLine b) : OneLine (a ++ b) := by
  intro c hc
  rcases List.mem_append.mp hc with hc | hc
  · exact ha c hc
  · exact hb c hc

/-- A frame read between frames: its message is heard, and nothing of it is left. -/
theorem read_render (frame : Frame) (hframe : frame.Plain) (messages : List Message) :
    Reader.read ⟨[], false, [], [], messages⟩ frame.render =
      ⟨[], false, [], [], messages ++ frame.messages⟩ := by
  have hnil : OneLine [] := fun c hc => absurd hc List.not_mem_nil
  cases frame with
  | comment text =>
    have hcolon : OneLine [':'] := by
      intro c hc
      obtain rfl := List.mem_singleton.mp hc
      exact ⟨by decide, by decide⟩
    have hline : OneLine (':' :: text) := oneLine_append hcolon hframe
    have hsplit : (Frame.comment text).render = (':' :: text ++ ['\n']) ++ ([] ++ ['\n']) := by
      simp [Frame.render]
    rw [hsplit, read_append, read_line hline rfl rfl, if_neg (by simp)]
    have hfield : Reader.field ⟨[], false, [], [], messages⟩ (':' :: text) =
        ⟨[], false, [], [], messages⟩ := by
      unfold Reader.field
      rfl
    rw [hfield, read_line hnil rfl rfl, if_pos rfl]
    simp [Reader.dispatch, Frame.messages]
  | message event data =>
    obtain ⟨hevent, hne, hdata⟩ := hframe
    have hnames : OneLine (EVENT ++ [':', ' ']) ∧ OneLine (DATA ++ [':', ' ']) := by
      constructor
      all_goals exact List.all_iff_forall_prop.mp (by decide)
    have heventLine : OneLine (EVENT ++ ':' :: ' ' :: event) := by
      simpa using oneLine_append hnames.1 hevent
    have hdataLine : OneLine (DATA ++ ':' :: ' ' :: data) := by
      simpa using oneLine_append hnames.2 hdata
    have hsplit : (Frame.message event data).render =
        ((EVENT ++ ':' :: ' ' :: event) ++ ['\n']) ++
          (((DATA ++ ':' :: ' ' :: data) ++ ['\n']) ++ ([] ++ ['\n'])) := by
      simp [Frame.render]
    have hEVENT : ∀ c ∈ EVENT, decide (c ≠ ':') = true := List.all_iff_forall_prop.mp (by decide)
    have hDATA : ∀ c ∈ DATA, decide (c ≠ ':') = true := List.all_iff_forall_prop.mp (by decide)
    rw [hsplit, read_append, read_line heventLine rfl rfl, if_neg (by simp), field_eq _ hEVENT,
      if_pos rfl, read_append, read_line hdataLine rfl rfl, if_neg (by simp), field_eq _ hDATA,
      if_neg (by decide), if_pos rfl, read_line hnil rfl rfl, if_pos rfl]
    simp [Reader.dispatch, Frame.messages, hne]

/-- The messages of a stream of frames, in their order. -/
theorem readStream_render {frames : List Frame} (h : ∀ frame ∈ frames, frame.Plain) :
    readStream (frames.flatMap Frame.render) = frames.flatMap Frame.messages := by
  have hread : ∀ (frames : List Frame) (messages : List Message),
      (∀ frame ∈ frames, frame.Plain) →
      Reader.read ⟨[], false, [], [], messages⟩ (frames.flatMap Frame.render) =
        ⟨[], false, [], [], messages ++ frames.flatMap Frame.messages⟩ := by
    intro frames
    induction frames with
    | nil => simp [Reader.read]
    | cons frame frames ih =>
      intro messages hall
      rw [List.flatMap_cons, read_append, read_render frame (hall frame List.mem_cons_self),
        ih _ fun f hf => hall f (List.mem_cons_of_mem frame hf)]
      simp
  show (Reader.read ⟨[], false, [], [], []⟩ _).messages = _
  rw [hread frames [] h]
  simp

end HeirsOcr.EventStream
