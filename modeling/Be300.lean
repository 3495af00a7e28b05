import Be300.Lib.Seq32
import Be300.Lib.Stream
import Be300.Lib.BinaryField
import Be300.Lib.Bytes
import Be300.Lib.Prog
import Be300.Lib.Chain
import Be300.Lib.ReedSolomon
import Be300.Lib.Ring
import Be300.Lib.Since
import Be300.Lib.Fifo
import Be300.Lib.Newest
import Be300.Lib.Calendar
import Be300.NetBridge.Tcp
import Be300.NetBridge.Upload
import Be300.NetBridge.Download
import Be300.NetBridge.Session
import Be300.NetBridge.Packet
import Be300.NetBridge.Guest
import Be300.NetBridge.WebSocket
import Be300.Cbea.Strings
import Be300.Cbea.Registry
import Be300.Cbea.Snapshot
import Be300.Cbea.RegistryMerge
import Be300.Cbea.Inf
import Be300.Cbea.Package
import Be300.Fat.Volume
import Be300.Fat.Machine
import Be300.Fat.Cluster
import Be300.Fat.Dir
import Be300.Fat.Create
import Be300.Fat.File
import Be300.Fat.Read
import Be300.Fat.Slots
import Be300.Fat.Scan
import Be300.Fat.Insert
import Be300.Fat.Confinement
import Be300.Fat.Mkdirs
import Be300.Fat.Encodable
import Be300.Fat.Format
import Be300.Cf.Ne2000
import Be300.Cf.RxRing
import Be300.Cf.ReadOut
import Be300.Cf.Ata
import Be300.Cf.Transfer
import Be300.Cf.Sectors
import Be300.Cf.Taskfile
import Be300.Wifi.Security
import Be300.Wifi.Card
import Be300.Wifi.Download
import Be300.Wifi.Admission
import Be300.Nand.Chip
import Be300.Nand.Ports
import Be300.Nand.Steps
import Be300.Nand.Flash
import Be300.Nand.Program
import Be300.Nand.Read
import Be300.Nand.Column
import Be300.Nand.Field
import Be300.Nand.Ecc
import Be300.Usb.Function
import Be300.Usb.Redir
import Be300.Usb.Moves
import Be300.Lib.Ledger
import Be300.Usb.Attach
import Be300.Usb.Requests
import Be300.Usb.Packets
import Be300.Usb.Operations
import Be300.Usb.Fifos
import Be300.Lib.Antitone
import Be300.Lib.Round
import Be300.Restore.Layout
import Be300.Lib.Window
import Be300.Nk.Lzss
import Be300.Nk.Stream
import Be300.Lib.Slots
import Be300.Lib.Splice
import Be300.Xi825.Card
import Be300.Xi825.Events
import Be300.Xi825.Frames
import Be300.Xi825.Records
import Be300.Xi825.Staging
import Be300.Lib.Utf16
import Be300.Inject.Registry
import Be300.Inject.Stowaway
import Be300.Lib.Ends
import Be300.Lib.Interpolate
import Be300.Wifi.Commands
import Be300.Audio.Pcm
import Be300.Touch.Pages
import Be300.Audio.Ring
import Be300.Rtc.Clock
import Be300.Eeprom.Wire
import Be300.EtherLink.Receive
import Be300.CfModem.Session
import Be300.Ui.Components
import Be300.Launcher.Session
import Be300.Aiu.Playback
import Be300.Cbea.Destination
import Be300.Stowaway.Session
