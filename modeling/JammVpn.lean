import JammVpn.Lib.Text
import JammVpn.Lib.Ip
import JammVpn.Lib.Ipv6
import JammVpn.Lib.Maps
import JammVpn.Lib.Utf8
import JammVpn.Lib.Bytes
import JammVpn.Lib.ReadModifyWrite
import JammVpn.Lib.Timed
import JammVpn.Lib.Machine
import JammVpn.Lib.Slots
import JammVpn.Lib.Incremental
import JammVpn.Lib.Scan
import JammVpn.Lib.Framed
import JammVpn.Lib.Cursor
import JammVpn.Lib.Loop
import JammVpn.Lib.Protobuf
import JammVpn.Lib.Json
import JammVpn.Lib.Ladder
import JammVpn.Lib.Ipv4
import JammVpn.Lib.Aead
import JammVpn.Lib.PollWrite
import JammVpn.Lib.PollRead
import JammVpn.Lib.PollPipe
import JammVpn.Core.Model
import JammVpn.Core.Cidr
import JammVpn.Core.Routing
import JammVpn.Core.Geo.Protobuf
import JammVpn.Core.Geo.Dat
import JammVpn.Core.Base64
import JammVpn.Core.Parse.Uri
import JammVpn.Core.Parse.Link
import JammVpn.Core.Json
import JammVpn.Core.Parse.Xray
import JammVpn.Core.Parse.Singbox
import JammVpn.Core.Parse.Clash
import JammVpn.Core.Parse.Subscription
import JammVpn.Core.Config
import JammVpn.Core.Secret
import JammVpn.Core.SecretCalls
import JammVpn.Core.Split
import JammVpn.Core.Theorems.Ladder
import JammVpn.Core.Theorems.Secret
import JammVpn.Core.Theorems.FailedStore
import JammVpn.Net.Outbound
import JammVpn.Net.FakeIp
import JammVpn.Net.DnsMessage
import JammVpn.Net.Resolver
import JammVpn.Net.Engine
import JammVpn.Net.FromConfig
import JammVpn.Net.SlideBuffer
import JammVpn.Net.Conn
import JammVpn.Net.Inbound
import JammVpn.Net.Http
import JammVpn.Net.Serve
import JammVpn.Net.Reassembly
import JammVpn.Net.Tuic
import JammVpn.Net.Hysteria2
import JammVpn.Net.Udp
import JammVpn.Net.Netstack
import JammVpn.Net.Trojan
import JammVpn.Net.Framing
import JammVpn.Net.Shadowsocks
import JammVpn.Net.ShadowsocksStream
import JammVpn.Net.Ss2022Udp
import JammVpn.Net.Ss2022Stream
import JammVpn.Net.Xor
import JammVpn.Net.VisionUnpad
import JammVpn.Net.TlsDeframer
import JammVpn.Net.RealityRecords
import JammVpn.Net.RealityMessages
import JammVpn.Net.RealityConnection
import JammVpn.Net.RealityStream
import JammVpn.Net.VisionFilter
import JammVpn.Net.VisionPlainStream
import JammVpn.Net.VisionStream
import JammVpn.Net.Theorems.SlideBuffer
import JammVpn.Net.Theorems.RealityRecords
import JammVpn.Net.Theorems.RealityMessages
import JammVpn.Net.Theorems.RealityConnection
import JammVpn.Net.Theorems.RealityCalls
import JammVpn.Net.Theorems.RealityRun
import JammVpn.Net.Theorems.RealityClient
import JammVpn.Net.Theorems.RealityStream
import JammVpn.Net.Theorems.RealityAnswers
import JammVpn.Net.Theorems.RealityHandshake
import JammVpn.Net.Theorems.RealityEstablished
import JammVpn.Net.Theorems.RealityFlight
import JammVpn.Net.Theorems.Route
import JammVpn.Net.Theorems.Routers
import JammVpn.Net.Theorems.Security
import JammVpn.Core.Theorems.Uri
import JammVpn.Core.Theorems.Parsed
import JammVpn.Core.Theorems.EmptyPath
import JammVpn.Core.Theorems.Links
import JammVpn.Core.Theorems.Base64
import JammVpn.Core.Theorems.Subscription
import JammVpn.Core.Theorems.Clash
import JammVpn.Core.Theorems.ClashForms
import JammVpn.Core.Theorems.ClashSection
import JammVpn.Core.Theorems.ShadowsocksForms
import JammVpn.Core.Theorems.Json
import JammVpn.Core.Theorems.Entries
import JammVpn.Core.Theorems.GeoIp
import JammVpn.Core.Theorems.GeoSite
import JammVpn.Core.Theorems.Protobuf
import JammVpn.Net.Theorems.Importers
import JammVpn.Net.Wireguard
import JammVpn.Net.Theorems.WgPorts
import JammVpn.Net.Obfs
import JammVpn.Net.ReassemblyTable
import JammVpn.Net.Theorems.Obfs
import JammVpn.Net.Theorems.VlessRespStrip
import JammVpn.Net.Vless
import JammVpn.Net.Connect
import JammVpn.Net.Theorems.Addresses
import JammVpn.Net.Theorems.HostPort
import JammVpn.Net.Theorems.ReassemblyTable
import JammVpn.Net.Registry
import JammVpn.Net.Theorems.Drop
import JammVpn.Net.UdpRelay
import JammVpn.Net.Theorems.LiveEgress
import JammVpn.Net.Theorems.FailClosed
import JammVpn.Net.Theorems.DnsMessage
import JammVpn.Net.Theorems.Literal
import JammVpn.Net.Theorems.Tunnel
import JammVpn.Net.Theorems.Requests
import JammVpn.Net.Theorems.Fallback
import JammVpn.Net.Theorems.SingleFlight
import JammVpn.Net.Theorems.UdpFlows
import JammVpn.Net.Theorems.Correlation
import JammVpn.Net.Theorems.UdpHeader
import JammVpn.Net.Subscription
import JammVpn.Net.Theorems.Dechunk
import JammVpn.Net.Theorems.Redirect
import JammVpn.Net.Theorems.Isolation
import JammVpn.Net.Theorems.Framing
import JammVpn.Net.Theorems.Registration
import JammVpn.Net.Theorems.Tuic
import JammVpn.Net.Theorems.PacketIds
import JammVpn.Net.Theorems.Hysteria2
import JammVpn.Net.Theorems.ShadowsocksStream
import JammVpn.Net.Theorems.Ss2022Stream
import JammVpn.Net.Theorems.Replay
import JammVpn.Net.Theorems.Xor
import JammVpn.Net.Theorems.VlessEncStream
import JammVpn.Net.VlessEncStream
import JammVpn.Net.Theorems.VisionUnpad
import JammVpn.Net.Theorems.TlsRecords
import JammVpn.Net.Theorems.VisionWrite
import JammVpn.Net.Theorems.VisionRead
import JammVpn.Net.Theorems.VisionSplit
import JammVpn.Net.Theorems.VisionSend
import JammVpn.Net.Theorems.VisionPadded
import JammVpn.Net.Theorems.VisionServe
import JammVpn.Net.Theorems.VisionStream
import JammVpn.Windows.Attribution
import JammVpn.Windows.Packet
import JammVpn.Windows.Capture
import JammVpn.Windows.Theorems.KillSwitch
import JammVpn.Windows.Theorems.Agreement
import JammVpn.Windows.Theorems.Checksums
import JammVpn.Windows.Theorems.Recalc
import JammVpn.Windows.Theorems.Fragments
import JammVpn.Windows.Theorems.Attribution
import JammVpn.Cli.BuildEngine
import JammVpn.Cli.MultiSocks
import JammVpn.Cli.RulesToSplit
import JammVpn.Cli.Links
import JammVpn.Core.Parse.Awg
import JammVpn.Cli.Operations
import JammVpn.Cli.Theorems.RuleInfo
import JammVpn.Cli.Theorems.WgConf
import JammVpn.Cli.Store
import JammVpn.Cli.Theorems.Writes
import JammVpn.Cli.Theorems.Keeps
import JammVpn.Cli.Theorems.FailedLoad
import JammVpn.Cli.Theorems.LostUpdate
import JammVpn.Cli.Theorems.Distinct
import JammVpn.Cli.Theorems.Startable
import JammVpn.Cli.Theorems.FirstNames
import JammVpn.Cli.Theorems.Ownership
import JammVpn.Cli.Theorems.Orphans
import JammVpn.Cli.Theorems.ManualNodes
import JammVpn.Cli.Theorems.ProcessRules
import JammVpn.Cli.Theorems.Links
import JammVpn.Wfp.Ipc
import JammVpn.Wfp.Driver
import JammVpn.Wfp.Classify
import JammVpn.Wfp.Theorems.Cidr
import JammVpn.Wfp.Theorems.Decide
import JammVpn.Wfp.Theorems.Snapshot
import JammVpn.Wfp.Theorems.Endpoints
import JammVpn.Wfp.Theorems.Apps
import JammVpn.Wfp.Theorems.Codec
