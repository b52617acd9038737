import NetworkOptimization.Devices

namespace NetworkOptimization.Opening

open SequentialCode Verbs Dependencies Devices
open Exchange.LowLatency (PingpongDest msgSize)

/-- The socket calls over the descriptors `D`. -/
inductive SocketCall (D : Type) where
  | socket
  | connect (fd : D)
  | bind (fd : D)
  | listen (fd : D) (backlog : Nat)
  | accept (fd : D)
  | write (fd : D) (msg : List UInt8)
  | read (fd : D) (size : Nat)
  | close (fd : D)

/-- `none` is the result `-1`, `some []` of a `read` the end of the stream. -/
abbrev SocketCall.Answer {D : Type} : SocketCall D → Type
  | .socket => Option D
  | .connect _ => Bool
  | .bind _ => Bool
  | .listen _ _ => Unit
  | .accept _ => Option D
  | .write _ _ => Option Nat
  | .read _ _ => Option (List UInt8)
  | .close _ => Unit

variable {D : Type}

abbrev Net (D α : Type) := Code (SocketCall D) SocketCall.Answer α

def system (v : SocketCall D) : Net D v.Answer := request v

/-- The loops over the addresses of `getaddrinfo`: a socket that `use` succeeds with. -/
def firstSocket (use : D → Net D Bool) : Nat → Net D (Option D)
  | 0 => return none
  | n + 1 => do
    match ← system .socket with
    | none => firstSocket use n
    | some sockfd =>
      if ← use sockfd then return some sockfd
      else
        system (.close sockfd)
        firstSocket use n

/-- `asprintf` and `getaddrinfo` around such a loop. -/
def resolve (use : D → Net D Bool) : Net D (Option D) := do
  let some service ← acquire .block [] | return none
  let some res ← acquire .addrInfo [] | do
    free service
    return none
  let sockfd ← firstSocket use (← gets (fun s => s.host.addresses))
  free res
  free service
  return sockfd

/-- The text of a destination over the array `msg`. Irreducible, as the search for the rule of a
routine would compute the text. -/
@[irreducible] def message (my : PingpongDest) (msg : List UInt8) : Net D (List UInt8) := do
  require (my.print msg (← gets (fun s => s.host.wgid)))

def parse (msg : List UInt8) : Net D (Option (Nat × PingpongDest)) := do
  let some block ← acquire .block [] | return none
  let host ← gets (fun s => s.host)
  let dest ← require (host.dest.scan msg host.wgid)
  return some (block, dest)

def done : List UInt8 := [100, 111, 110, 101, 0]

/-- What `pp_client_exch_dest` does with the socket before its label `out`. -/
def clientExchange (sockfd : D) (my : PingpongDest) : Net D (Option (Nat × PingpongDest)) := do
  let msg ← message my (← gets (fun s => s.host.msg))
  if (← system (.write sockfd msg)) ≠ some msgSize then return none
  let some msg ← system (.read sockfd msgSize) | return none
  if msg.length ≠ msgSize then return none
  let _ ← system (.write sockfd done)
  parse msg

def ppClientExchDest (my : PingpongDest) : Net D (Option (Nat × PingpongDest)) := do
  let some sockfd ← resolve (fun fd => system (.connect fd)) | return none
  let remDest ← clientExchange sockfd my
  system (.close sockfd)
  return remDest

def acceptAll (sockfd : D) : Nat → List D → Net D (Option (List D))
  | 0, fds => return some fds
  | n + 1, fds => do
    let some connfd ← system (.accept sockfd) | return none
    acceptAll sockfd n (fds ++ [connfd])

def listenToWebsocket (clientNumber : Nat) : Net D (Option (List D)) := do
  let some sockfd ← resolve (fun fd => system (.bind fd)) | return none
  system (.listen sockfd clientNumber)
  let some fds ← acceptAll sockfd clientNumber [] | return none
  system (.close sockfd)
  return some fds

def ibPort : Nat := 1

def sl : Nat := 0

def gidx : Int := -1

def ppMtuToEnum : Nat → Int
  | 256 => 1
  | 512 => 2
  | 1024 => 3
  | 2048 => 4
  | 4096 => 5
  | _ => -1

def mtu : Int := ppMtuToEnum 4096

/-- What `pp_server_exch_dest` does with the socket before its label `out`. -/
def serverExchange (ctx : Context) (connfd : D) (my : PingpongDest) :
    Net D (Option (Nat × PingpongDest)) := do
  let some msg ← system (.read connfd msgSize) | return none
  if msg.length ≠ msgSize then return none
  let some remDest ← parse msg | return none
  if (← ppConnectCtx ctx ibPort my.psn mtu sl remDest.2 gidx) ≠ 0 then
    free remDest.1
    return none
  let msg ← message my msg
  if (← system (.write connfd msg)) ≠ some msgSize then
    free remDest.1
    return none
  let _ ← system (.read connfd msgSize)
  return some remDest

def ppServerExchDest (ctx : Context) (connfd : D) (my : PingpongDest) :
    Net D (Option (Nat × PingpongDest)) := do
  let remDest ← serverExchange ctx connfd my
  system (.close connfd)
  return remDest

/-- The receive requests of a new context. -/
def fillReceives (ctx : Context) : Net D (Option Context) :=
  locally (fun s =>
    let posts := fun i => s.host.answers (s.calls + i)
    let (failed, queue) := ppPostRecv posts ctx.queue
    let qp := s.queuePairs ctx.qp
    let held := (postRecvs posts (ctx.queue.rxDepth - ctx.queue.routs).toNat 0 qp.receives).2
    let s := { s with calls := s.calls + ctx.queue.rxDepth.toNat }
    some (if failed = 0 then some { ctx with queue := { queue with routs := queue.rxDepth } } else none,
      s.setQueuePair ctx.qp { qp with receives := held }))

def drawPsn : Net D UInt32 :=
  locally (fun s => some (s.host.rand s.draws &&& 0xffffff, { s with draws := s.draws + 1 }))

def zeroGid : Exchange.Gid := ⟨List.replicate 16 0, rfl⟩

/-- A turn of the loop of `kv_open` up to the exchange: a context with its address. -/
def prepareCtx : Net D (Option (Context × PingpongDest)) := do
  let some ctx ← ppInitCtx rxDepth ibPort false | return none
  let some ctx ← fillReceives ctx | return none
  -- `pp_get_port_info`
  if !(← attempt) then return none
  let host ← gets (fun s => s.host)
  if host.infiniband ∧ host.lid = 0 then return none
  let psn ← drawPsn
  return some (ctx, ⟨host.lid.toUInt32, host.qpNum ctx.qp, psn, zeroGid⟩)

/-- The exchange with a remote host: with the server, or over the connection of a client. -/
def exchangeDest (ctx : Context) (my : PingpongDest) : Option D → Net D (Option (Nat × PingpongDest))
  | none => ppClientExchDest my
  | some connfd => ppServerExchDest ctx connfd my

/-- The end of the turn. The server has checked the destination and used it. -/
def useDest (ctx : Context) (my : PingpongDest) :
    Option D → Option (Nat × PingpongDest) → Net D (Option (Nat × PingpongDest))
  | none, remDest => do
    -- `inet_ntop(AF_INET6, &ptr_kv_handle->rem_dest->gid, ...)`
    let remDest ← require remDest
    if (← ppConnectCtx ctx ibPort my.psn mtu sl remDest.2 gidx) ≠ 0 then return none
    return some remDest
  | some _, remDest => return remDest

structure Remote where
  ctx : Context
  my : PingpongDest
  block : Nat
  dest : PingpongDest

/-- The loop of `kv_open` over the remote hosts. -/
def openRemotes (arrayCtxPtr arrayRemoteDest : Option Nat) :
    List (Option D) → List Remote → Net D (Option (List Remote))
  | [], remotes => return some remotes
  | host :: hosts, remotes => do
    let _ ← require arrayCtxPtr
    let some (ctx, my) ← prepareCtx | return none
    let remDest ← exchangeDest ctx my host
    let _ ← require arrayRemoteDest
    let some remDest ← useDest ctx my host remDest | return none
    openRemotes arrayCtxPtr arrayRemoteDest hosts (remotes ++ [⟨ctx, my, remDest.1, remDest.2⟩])

/-- `KVHandle` behind `kv_open`, with what its two arrays hold. -/
structure KVHandle where
  block : Nat
  devList : Nat
  arrayCtxPtr : Option Nat
  arrayRemoteDest : Option Nat
  remotes : List Remote

def remoteObjects (remotes : List Remote) : List (Nat × Object Kind) :=
  remotes.flatMap (fun r => r.ctx.objects) ++ remotes.map (fun r => (r.block, ⟨.block, []⟩))

def baseObjects (block devList : Nat) (arrayCtxPtr arrayRemoteDest : Option Nat) :
    List (Nat × Object Kind) :=
  arrayCtxPtr.toList.map (fun id => (id, ⟨.block, []⟩)) ++
    (arrayRemoteDest.toList.map (fun id => (id, ⟨.block, []⟩)) ++
      [(devList, ⟨.deviceList, []⟩), (block, ⟨.block, []⟩)])

/-- The objects of a handle, in the order in which they are closed. -/
def KVHandle.objects (handle : KVHandle) : List (Nat × Object Kind) :=
  remoteObjects handle.remotes ++
    baseObjects handle.block handle.devList handle.arrayCtxPtr handle.arrayRemoteDest

def remoteHosts (servername : Bool) (numClients : Nat) : Net D (Option (List (Option D))) := do
  if servername then return some [none]
  else
    let some fds ← listenToWebsocket numClients | return none
    return some (fds.map some)

/-- `kv_open` behind its own allocations. -/
def openHandle (servername : Bool) (numClients : Nat) (block devList : Nat)
    (arrayCtxPtr arrayRemoteDest : Option Nat) : Net D (Option KVHandle) := do
  let some hosts ← remoteHosts servername numClients | return none
  let some remotes ← openRemotes arrayCtxPtr arrayRemoteDest hosts [] | return none
  return some ⟨block, devList, arrayCtxPtr, arrayRemoteDest, remotes⟩

/-- `kv_open`; `none` is its result `1`. -/
def kvOpen (servername : Bool) (numClients : Nat) : Net D (Option KVHandle) := do
  let block ← require (← acquire .block [])
  let some devList ← acquire .deviceList [] | return none
  if !(← gets (fun s => s.host.devices)) then return none
  let arrayCtxPtr ← acquire .block []
  let arrayRemoteDest ← acquire .block []
  openHandle servername numClients block devList arrayCtxPtr arrayRemoteDest

section Close

variable {V : Type} {R : V → Type}

def closeContexts : List Context → Code V R Unit
  | [] => return ()
  | ctx :: ctxs => do
    let _ ← ppCloseCtx ctx
    closeContexts ctxs

def freeAll : List Nat → Code V R Unit
  | [] => return ()
  | block :: blocks => do
    free block
    freeAll blocks

/-- `kv_close`. It leaves the block of the handle itself. -/
def kvClose (handle : KVHandle) : Code V R Int := do
  closeContexts (handle.remotes.map Remote.ctx)
  freeAll (handle.remotes.map Remote.block)
  freeAll handle.arrayCtxPtr.toList
  freeAll handle.arrayRemoteDest.toList
  -- `ibv_free_device_list`
  free handle.devList
  return 0

end Close

end NetworkOptimization.Opening
