import Bookstore.LocalCheckouts
import Bookstore.ReservationLedger
import Bookstore.DocumentRoot
import Bookstore.Restarts
import Bookstore.SplitCancel
import Bookstore.Protocols
import Bookstore.CancelFailures
import Bookstore.RefusedOrders
import Bookstore.OrderRpc
import Bookstore.CancelOnce
import Bookstore.OverlappingCancels
import Bookstore.CancelSchedules
import Bookstore.FileDelivery
import Bookstore.ParserExceptions
import Bookstore.BookClients
import Bookstore.StockOverwrites
import Bookstore.ConnectionTimers
import Bookstore.TimerTicks
import Bookstore.ApiDelivery
import Bookstore.ConnectionPool
import Bookstore.EpollArming
import Bookstore.ChunkedParsing
import Bookstore.ThreadPool
import Bookstore.ReactorHandshake
import Bookstore.StockLevels
import Bookstore.BatchAgreement
import Bookstore.OrderTotals
import Bookstore.Credentials
import Bookstore.CredentialCache
import Bookstore.WideIds
import Bookstore.ApiRoutes
import Bookstore.CatalogueDrift
import Bookstore.PoolShutdown
import Bookstore.BlockQueue
import Bookstore.PatchedBooks
import Bookstore.CatalogueFailures
import Bookstore.Spans
import Bookstore.PartialLines
import Bookstore.RequestLines
import Bookstore.ParserBounds
import Bookstore.PartialHeaders
import Bookstore.StuckRequests
import Bookstore.ReadModes
import Bookstore.Decimals
import Bookstore.Framing
import Bookstore.TextSearch
import Bookstore.JsonFields
import Bookstore.FieldAgreement
import Bookstore.JsonEscapes
import Bookstore.Utf8
import Bookstore.JsonGrammar
import Bookstore.JsonResponses
import Bookstore.OrderMarks
import Bookstore.OrderRequests
import Bookstore.OrderElements
import Bookstore.Fips180
import Bookstore.Sha256Standard
import Bookstore.QueryStrings
import Bookstore.SlashAgreement
import Bookstore.TopK
import Bookstore.SimilarBooks
import Bookstore.Logging
import Bookstore.Undo
import Bookstore.LocalReservations
import Bookstore.PriorityQueue
import Bookstore.BeamSearch
import Bookstore.MarkedSearch
import Bookstore.Hnsw
import Bookstore.GraphIntegrity
import Bookstore.GraphInsertion
import Bookstore.GraphSearch
import Bookstore.VisitedLists
import Bookstore.HnswRecommendations
import Bookstore.WireRequests
import Bookstore.Threads
import Bookstore.Sessions
import Bookstore.OrderController
import Bookstore.OrderSessions
import Bookstore.OrderDeployments
import Bookstore.OrderBackends
import Bookstore.KeyedLists
import Bookstore.ShopPage
import Bookstore.MysqlBookClients
import Bookstore.TableCatalogues
