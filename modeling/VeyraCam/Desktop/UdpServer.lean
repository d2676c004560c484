import VeyraCam.Protocol.Bytes

/-! # The UDP server

The media socket drops datagrams from other sources than the expected peer.
There is no expected peer when the text it was set to is empty, or does not
parse, or is the zero address.
-/

namespace VeyraCam

structure UdpServer where
  expectedPeer : Text := []
  expectedPeerAddr : UInt32 := 0
  deriving DecidableEq

namespace UdpServer

def setExpectedPeer (inetPton : Text → Option UInt32) (hostIp : Text) : UdpServer where
  expectedPeer := hostIp
  expectedPeerAddr := if hostIp.isEmpty then 0 else (inetPton hostIp).getD 0

/-- The checks of `IocpUdpServer::WorkerLoop` before it calls back. -/
def passes (server : UdpServer) (source : UInt32) (data : Bytes) : Bool :=
  !data.isEmpty && (server.expectedPeerAddr = 0 || source = server.expectedPeerAddr)

theorem source_of_passes {server : UdpServer} {source : UInt32} {data : Bytes}
    (h₀ : server.expectedPeerAddr ≠ 0) (h : server.passes source data = true) :
    source = server.expectedPeerAddr := by
  simpa [passes, h₀] using (Bool.and_eq_true_iff.mp h).2

end UdpServer

end VeyraCam
