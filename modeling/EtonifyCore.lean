import EtonifyCore.Rule.Documented
import EtonifyCore.DNS.Sequential
import EtonifyCore.DNS.Barrier
import EtonifyCore.DNS.Mode
import EtonifyCore.Route.PreMatch
import EtonifyCore.Route.SelectorSwitch
import EtonifyCore.TLS.CertificatePin
import EtonifyCore.Lifecycle.Cleanup
import EtonifyCore.DNSClient.ResponseCheck
import EtonifyCore.DNSClient.PersistentKey
import EtonifyCore.Transport.ConnPoolSafety
import EtonifyCore.Transport.MultiplexerSafety
import EtonifyCore.Transport.MultiplexerProgress
import EtonifyCore.AdGuard.RoundTrip
import EtonifyCore.Group.URLTest
import EtonifyCore.TLS.Fragment
import EtonifyCore.Sniff.QUIC
import EtonifyCore.Daemon.URLTestJoin
import EtonifyCore.FakeIP.Inside
import EtonifyCore.DNSClient.Lifetime
import EtonifyCore.DNSClient.Subnet
import EtonifyCore.Rule.Inversion
import EtonifyCore.DNS.Legacy
import EtonifyCore.Lifecycle.StartManagers
import EtonifyCore.HTTPClient.EpochSafety
import EtonifyCore.Realm.Registry
import EtonifyCore.Route.ConnectionTurns
import EtonifyCore.Masque.Server
import EtonifyCore.VLESS.Nonces
import EtonifyCore.RuleSet.MmapBounds
import EtonifyCore.Transport.WaitReadCloser
import EtonifyCore.Transport.XmuxIdle
import EtonifyCore.Route.Buffers
import EtonifyCore.Daemon.URLTestSelection
import EtonifyCore.HTTPClient.HTTP3
import EtonifyCore.Rule.RemoteRuleSet
import EtonifyCore.Dialer.SlowOpenConn
import EtonifyCore.DNS.ExchangeNames
import EtonifyCore.Masque.Addresses
import EtonifyCore.Transport.QueryIds
import EtonifyCore.Transport.GunConn
import EtonifyCore.CacheFile.Pending
import EtonifyCore.SSMAPI.UserManager
import EtonifyCore.WinDivert.Filter
import EtonifyCore.Realm.Lease
import EtonifyCore.Rule.Frame
import EtonifyCore.DNS.ExchangeParallel
