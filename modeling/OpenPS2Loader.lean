import OpenPS2Loader.Art.Index
import OpenPS2Loader.Atlas.Packing
import OpenPS2Loader.Cdvdfsv.ReadPattern
import OpenPS2Loader.Cdvdman.DeviceBdm
import OpenPS2Loader.Cdvdman.Extents
import OpenPS2Loader.Cdvdman.FileOps
import OpenPS2Loader.Cdvdman.ReadErrors
import OpenPS2Loader.Cdvdman.ReadSplit
import OpenPS2Loader.Cdvdman.SearchFile
import OpenPS2Loader.Cdvdman.SectorCache
import OpenPS2Loader.Cdvdman.StreamingCopy
import OpenPS2Loader.Cdvdman.StreamingGameReads
import OpenPS2Loader.Cdvdman.StreamingRuns
import OpenPS2Loader.Cheats.Flatten
import OpenPS2Loader.Config.LibconfigRoundTrip
import OpenPS2Loader.Config.Set
import OpenPS2Loader.Config.SetHeap
import OpenPS2Loader.Config.SingleShot
import OpenPS2Loader.Config.Write
import OpenPS2Loader.Cue.DisplaySetting
import OpenPS2Loader.EeCore.CheatSetup
import OpenPS2Loader.EeCore.PatternSearch
import OpenPS2Loader.Favourites.Store
import OpenPS2Loader.Fonts.FitString
import OpenPS2Loader.Games.BootFile
import OpenPS2Loader.Games.ChangeDetection
import OpenPS2Loader.Games.Info
import OpenPS2Loader.Games.ReadList
import OpenPS2Loader.Http.CatalogAgree
import OpenPS2Loader.Http.CatalogList
import OpenPS2Loader.Http.Decimal
import OpenPS2Loader.Http.DeviceRead
import OpenPS2Loader.Http.LegacyResponse
import OpenPS2Loader.Http.RequestPath
import OpenPS2Loader.Http.StreamRange
import OpenPS2Loader.Ioman.QueueRuns
import OpenPS2Loader.Lib.Bytes
import OpenPS2Loader.Lib.CString
import OpenPS2Loader.Lib.DoublyLinked
import OpenPS2Loader.Lib.DoublySegment
import OpenPS2Loader.Lib.FirstOf
import OpenPS2Loader.Lib.Ledger
import OpenPS2Loader.Lib.LinkedList
import OpenPS2Loader.Lib.Projection
import OpenPS2Loader.Lib.Ring
import OpenPS2Loader.Lib.Scan
import OpenPS2Loader.Lib.Semaphore
import OpenPS2Loader.Lib.StableSort
import OpenPS2Loader.Lib.Text
import OpenPS2Loader.Lib.Transition
import OpenPS2Loader.Lib.Words
import OpenPS2Loader.Mcemu.DeviceHdd
import OpenPS2Loader.Mcemu.Ecc
import OpenPS2Loader.Mcemu.FastIo
import OpenPS2Loader.Mcemu.Packets
import OpenPS2Loader.Mcemu.PageStream
import OpenPS2Loader.Mcemu.TwoCards
import OpenPS2Loader.Menu.Completion
import OpenPS2Loader.Menu.Ownership
import OpenPS2Loader.Menu.Pages
import OpenPS2Loader.Menu.Submenu
import OpenPS2Loader.Nbns.Names
import OpenPS2Loader.Neutrino.LaunchArgs
import OpenPS2Loader.Ra.ImageHash
import OpenPS2Loader.Ra.Notices
import OpenPS2Loader.Ra.Ranet
import OpenPS2Loader.Ra.Tear
import OpenPS2Loader.Ra.Telemetry
import OpenPS2Loader.Retrogem.BootText
import OpenPS2Loader.Retrogem.Disc
import OpenPS2Loader.Retrogem.DiscId
import OpenPS2Loader.Retrogem.Storage
import OpenPS2Loader.Smb.ReadSectors
import OpenPS2Loader.Sound.BgmRuns
import OpenPS2Loader.Tar.CacheBytes
import OpenPS2Loader.Tar.Index
import OpenPS2Loader.Tar.Lifecycle
import OpenPS2Loader.Texcache.Effects
import OpenPS2Loader.Texcache.FailMemo
import OpenPS2Loader.Texcache.Machine
import OpenPS2Loader.Texcache.Reunion
import OpenPS2Loader.Udpfs.Send
import OpenPS2Loader.UsbExtreme.Parts
import OpenPS2Loader.Util.FileBuffer
import OpenPS2Loader.Util.LineSplit
import OpenPS2Loader.Vcd.EquipBdma
import OpenPS2Loader.Vcd.GameId
import OpenPS2Loader.Vcd.NetWrite
import OpenPS2Loader.Vcd.RowOrder
import OpenPS2Loader.Vmc.CopyExact
import OpenPS2Loader.Vmc.Format
import OpenPS2Loader.Vmc.Jobs
import OpenPS2Loader.Vmc.JobsControl
import OpenPS2Loader.Zso.Calls
import OpenPS2Loader.Zso.RawDataEe
