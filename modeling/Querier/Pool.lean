import Querier.Config.Basic
import Querier.Log
import Querier.Stream
import Querier.Table

/-!
# The pool of idle connections

Setting up a connection is dear, so connections that brought a good response are kept
for later queries to the same server. The pool holds a stack of them per server; a
caller gets the one released last, and a connection is with the pool or with one caller.

Taking from the pool closes what it passes over: connections of the other protection and
connections that have been idle too long. Giving back closes the connection if it has
carried enough queries or if the pool is full.

## Main results

* `size_acquire_lt`: taking a connection makes the pool smaller.
* `size_release_le`: giving one back adds at most one.
-/

namespace Querier

/-- A connection of the engine. -/
structure Connection where
  /-- Tells the connection from all others. -/
  id : Nat
  stream : Stream
  tls : Bool
  /-- How many queries have been sent over it. -/
  queries : UInt64 := 0
  deriving DecidableEq

/-- Counts a query that is sent. -/
def Connection.countQuery (c : Connection) : Connection := { c with queries := c.queries + 1 }

/-- A connection in the pool and when it came there. -/
structure Idle where
  conn : Connection
  since : Time
  deriving DecidableEq

/-! ## Closing -/

/-- Why a connection is closed. -/
inductive CloseReason where
  | wrongProtection
  | expired
  | tooManyQueries
  | poolFull
  | hostFull
  deriving DecidableEq, Repr

/-- The wording of a reason. -/
def CloseReason.message : CloseReason → String
  | .wrongProtection => "closing pooled connection with wrong protection"
  | .expired => "closing expired pooled connection"
  | .tooManyQueries => "closing connection with too many queries"
  | .poolFull => "pool full, closing connection"
  | .hostFull => "pool full for host, closing connection"

/-- A connection that was closed. -/
structure Closing where
  reason : CloseReason
  conn : Connection
  deriving DecidableEq

/-- The log event for a closing. -/
def Closing.note (c : Closing) (server : SocketAddress) : LogEvent :=
  { level := .trace, message := c.reason.message, fields := [("addr", server.toText)] }

/-- The log event for a connection that failed and is closed by its holder. -/
def Connection.discardNote (c : Connection) : LogEvent :=
  let address := match c.stream.localAddress with
    | none => "None"
    | some a => "Some(" ++ a.toText ++ ")"
  { level := .trace, message := "discarding connection", fields := [("local", address)] }

/-! ## The pool -/

/-- The idle connections, a stack per server with the latest on top, and their number. -/
structure Pool where
  config : PoolConfig
  hosts : Table SocketAddress (List Idle) := []
  total : Nat := 0
  deriving DecidableEq

namespace Pool

/-- The idle connections to a server. -/
def stack (p : Pool) (server : SocketAddress) : List Idle := (p.hosts.find? server).getD []

/-- The number of idle connections to a server. -/
def countFor (p : Pool) (server : SocketAddress) : Nat := (p.stack server).length

/-- How many connections a table of stacks holds. -/
def sizeOf : Table SocketAddress (List Idle) → Nat
  | [] => 0
  | (_, stack) :: rest => stack.length + sizeOf rest

/-- How many connections the stacks hold. -/
def size (p : Pool) : Nat := sizeOf p.hosts

/-- Puts a stack in place of that of a server; an empty stack is left out. -/
def setStack (p : Pool) (server : SocketAddress) (s : List Idle) :
    Table SocketAddress (List Idle) :=
  if s.isEmpty then p.hosts.erase server else p.hosts.put server s

/-- How long an idle connection has been in the pool. -/
def age (now : Time) (i : Idle) : Duration := now - i.since

/-- What taking a connection finds: the connection, what stays below it, and what was
closed above it. -/
structure Descent where
  conn : Option Connection
  below : List Idle
  closed : List Closing

/-- The descent with one more connection closed on the way. -/
def Descent.over (d : Descent) (c : Closing) : Descent := { d with closed := c :: d.closed }

/-- Goes down a stack to the first connection that fits. -/
def descend (limit : Duration) (now : Time) (tls : Bool) : List Idle → Descent
  | [] => ⟨none, [], []⟩
  | i :: below =>
    if i.conn.tls != tls then (descend limit now tls below).over ⟨.wrongProtection, i.conn⟩
    else if limit < age now i then (descend limit now tls below).over ⟨.expired, i.conn⟩
    else ⟨some i.conn, below, []⟩

/-- What taking a connection leads to. -/
structure Acquired where
  conn : Option Connection
  pool : Pool
  closed : List Closing

/-- Takes the latest connection to a server that has the right protection and has not
been idle too long. -/
def acquire (p : Pool) (now : Time) (server : SocketAddress) (tls : Bool) : Acquired :=
  match p.hosts.find? server with
  | none => { conn := none, pool := p, closed := [] }
  | some stack =>
    let d := descend p.config.maxIdleTime now tls stack
    let gone := stack.length - d.below.length
    { conn := d.conn
      pool := { p with hosts := p.setStack server d.below, total := p.total - gone }
      closed := d.closed }

/-- Gives a connection back. It is closed if it has carried as many queries as a
connection may, if the pool is full, or if its server's stack is. -/
def release (p : Pool) (now : Time) (server : SocketAddress) (c : Connection) :
    Pool × Option Closing :=
  let most := p.config.maxQueries
  if 0 < most ∧ most ≤ c.queries then (p, some ⟨.tooManyQueries, c⟩)
  else if p.config.maxIdleTotal.toNat ≤ p.total then (p, some ⟨.poolFull, c⟩)
  else if p.config.maxIdlePerHost.toNat ≤ p.countFor server then (p, some ⟨.hostFull, c⟩)
  else
    let stack := ⟨c, now⟩ :: p.stack server
    ({ p with hosts := p.hosts.put server stack, total := p.total + 1 }, none)

/-- Closes the connections that have been idle too long. -/
def cleanup (p : Pool) (now : Time) : Pool :=
  let kept := p.hosts.filterMap fun (server, stack) =>
    let fresh := stack.filter fun i => age now i ≤ p.config.maxIdleTime
    if fresh.isEmpty then none else some (server, fresh)
  { p with hosts := kept, total := p.total - (sizeOf p.hosts - sizeOf kept) }

/-- Begins a new turn on every stream. -/
def renewStreams (p : Pool) : Pool :=
  { p with
    hosts := p.hosts.map fun (server, stack) =>
      (server, stack.map fun i => { i with conn.stream := i.conn.stream.renew }) }

/-! ## Sizes -/

theorem length_descend (limit : Duration) (now : Time) (tls : Bool) (s : List Idle) :
    (descend limit now tls s).below.length + (descend limit now tls s).conn.toList.length
      ≤ s.length := by
  induction s with
  | nil => simp [descend]
  | cons i below ih =>
    simp only [descend]
    split
    · simp only [Descent.over, List.length_cons]
      omega
    · split
      · simp only [Descent.over, List.length_cons]
        omega
      · simp

theorem sizeOf_filter (hosts : Table SocketAddress (List Idle))
    (keep : SocketAddress × List Idle → Bool) : sizeOf (hosts.filter keep) ≤ sizeOf hosts := by
  induction hosts with
  | nil => simp
  | cons entry rest ih =>
    by_cases kept : keep entry = true
    · simp only [List.filter_cons_of_pos kept, sizeOf]
      omega
    · simp only [List.filter_cons_of_neg kept, sizeOf]
      omega

theorem sizeOf_put (hosts : Table SocketAddress (List Idle)) (server : SocketAddress)
    (s : List Idle) :
    sizeOf (hosts.put server s) + ((hosts.find? server).getD []).length
      = sizeOf hosts + s.length := by
  induction hosts with
  | nil => simp [Table.put, Table.find?, sizeOf]
  | cons entry rest ih =>
    obtain ⟨other, t⟩ := entry
    by_cases same : (server == other) = true
    · simp only [Table.put, Table.find?, same, if_true, sizeOf, Option.getD_some]
      omega
    · simp only [Table.put, Table.find?, same, Bool.false_eq_true, if_false, sizeOf]
      omega

theorem sizeOf_erase (hosts : Table SocketAddress (List Idle)) (server : SocketAddress) :
    sizeOf (hosts.erase server) + ((hosts.find? server).getD []).length ≤ sizeOf hosts := by
  induction hosts with
  | nil => simp [Table.erase, Table.find?, sizeOf]
  | cons entry rest ih =>
    obtain ⟨other, t⟩ := entry
    have filtered := sizeOf_filter rest fun entry => !(server == entry.1)
    by_cases same : (server == other) = true
    · simp only [Table.erase, Table.find?, same, List.filter_cons, Bool.not_true,
        Bool.false_eq_true, if_false, if_true, sizeOf, Option.getD_some]
      omega
    · simp only [Table.erase, Table.find?, same, List.filter_cons, Bool.not_false,
        Bool.false_eq_true, if_false, if_true, sizeOf] at ih ⊢
      omega

theorem size_acquire (p : Pool) (now : Time) (server : SocketAddress) (tls : Bool) :
    (p.acquire now server tls).pool.size + (p.acquire now server tls).conn.toList.length
      ≤ p.size := by
  unfold acquire
  split
  · simp
  · rename_i stack found
    have shorter := length_descend p.config.maxIdleTime now tls stack
    have put := sizeOf_put p.hosts server (descend p.config.maxIdleTime now tls stack).below
    have erased := sizeOf_erase p.hosts server
    simp only [found, Option.getD_some] at put erased
    simp only [size, setStack]
    split
    · omega
    · omega

theorem size_acquire_lt {p : Pool} {now : Time} {server : SocketAddress} {tls : Bool}
    {c : Connection} (h : (p.acquire now server tls).conn = some c) :
    (p.acquire now server tls).pool.size < p.size := by
  have := size_acquire p now server tls
  simp only [h, Option.toList_some, List.length_singleton] at this
  omega

theorem size_release_le (p : Pool) (now : Time) (server : SocketAddress) (c : Connection) :
    (p.release now server c).1.size ≤ p.size + 1 := by
  have put := sizeOf_put p.hosts server (⟨c, now⟩ :: p.stack server)
  simp only [List.length_cons, stack] at put
  simp only [release]
  split
  · exact Nat.le_succ _
  · split
    · exact Nat.le_succ _
    · split
      · exact Nat.le_succ _
      · simp only [size, stack]
        omega

end Pool

end Querier
