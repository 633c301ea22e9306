import ShellTranscript.Session.Lifecycle

-- What arrives from the shell. It waits until there is a reader, which then takes it in reads of a
-- limited size; after the end nothing is read any more.
namespace ShellTranscript.Session

def readLimit : Nat := 4096

-- The reads that take some bytes.
def reads (bytes : List UInt8) : List (List UInt8) :=
  if bytes = [] then []
  else bytes.take readLimit :: reads (bytes.drop readLimit)
termination_by bytes.length
decreasing_by
  rename_i h
  have := List.length_pos_iff.2 h
  simp only [List.length_drop, readLimit]
  omega

-- Reading loses nothing.
theorem flatten_reads (bytes : List UInt8) : (reads bytes).flatten = bytes := by
  fun_induction reads bytes with
  | case1 => rfl
  | case2 bytes _ ih => rw [List.flatten_cons, ih, List.take_append_drop]

-- One read. Listeners are told in order, and the terminal's replies go to the shell.
def read (s : Session) (connector : Nat) (bytes : List UInt8) : Session :=
  let (reading, notices, replies) := s.reading.read bytes
  let s := notices.foldl deliver { s with reading }
  replies.foldl (fun s reply => (s.callConnector connector fun c => c.write none reply).1) s

-- Takes one arrival, if there is a reader for it.
def take (s : Session) (arrival : Arrival) : Session :=
  match s.reader, arrival with
  | .attached connector, .output bytes => (reads bytes).foldl (fun s bytes => s.read connector bytes) s
  | .attached connector, .finish => s.terminate connector
  | .attached connector, .failure isTransient => if isTransient then s else s.terminate connector
  | _, _ => s

-- Takes everything that waits.
def takeWaiting (s : Session) : Session :=
  match s.reader with
  | .absent => s
  | _ => s.arrivals.foldl take { s with arrivals := [] }

def receive (s : Session) (arrival : Arrival) : Session :=
  { s with arrivals := s.arrivals ++ [arrival] }.takeWaiting

-- A connection that was closed reports its end to the reader.
def hangUp (s : Session) : Session :=
  match s.reader with
  | .attached connector =>
    if (s.connectors[connector]?.map Connector.isClosed).getD false then s.receive .finish else s
  | _ => s

end ShellTranscript.Session
